import TaggedUnion.Proofs.Match.FirstKept
import TaggedUnion.Proofs.Optional.Refinement
import TaggedUnion.Proofs.Session.History

/-!
# What is asked of the matcher of a session

The matcher of a session serves its clients and the operations on options alike. An operation on an
option asks one question before anything else that matters to the matcher, and a function that it
calls goes on to ask whatever it asks. An operation that refuses its arguments asks nothing.

* `Optional.Inspects`: the operations that call no function.
* `Session.asksOn`: the questions of an operation on a value.
* `Session.Asks`: any number of operations on a session, with all that is asked on the way.
* `Session.Asks.reachable_and_matcher_eq`: the matcher in the end is the one that was asked just this.
* `Matcher.plans_first_kept`: the account of the plans kept, for a matcher by itself and for that of a
  session.
-/

namespace TaggedUnion

open Matcher (Question)

namespace Optional

/-- The question that a match on the instance `v` asks if its arms are those of an option. Their heads
do not depend on what the arms do. -/
def question (v : EnumValue) : Question :=
  ⟨v.type, (arms (fun _ => ()) ()).map (·.head)⟩

/-- The operations on an option that call no function. Some take another value, which has to fit the
option type before the option is matched. -/
inductive Inspects {m : Type → Type} [Monad m] (v : EnumValue) :
    {α : Type} → OptionsT m α → (OptionType → Bool) → Prop
  | held? : Inspects v (held? v) fun _ => true
  | isPresent : Inspects v (isPresent v) fun _ => true
  | isAbsent : Inspects v (isAbsent v) fun _ => true
  | unwrap : Inspects v (unwrap v) fun _ => true
  | unwrapOr (default : Value) : Inspects v (unwrapOr v default) fun type =>
      default.conformsTo type.inner
  | orElse (alternative : EnumValue) : Inspects v (orElse v alternative) fun type =>
      type.isInstance alternative

variable {m : Type → Type} [Monad m] {α : Type} {v : EnumValue} {code : OptionsT m α}
  {fits : OptionType → Bool} {s s' : Session}

/-- On a value that is no option such an operation changes nothing. -/
theorem Inspects.run_of_refuses (h : Inspects v code fits) {e : OptionError}
    (hrefuses : Refuses m s v e) : code.run.run s = pure (.error e, s) := by
  cases h with
  | held? => exact hrefuses.held?
  | isPresent => exact hrefuses.isPresent
  | isAbsent => exact hrefuses.isAbsent
  | unwrap => exact hrefuses.unwrap
  | unwrapOr default => exact hrefuses.unwrapOr default
  | orElse alternative => exact hrefuses.orElse alternative

/-- On an option it matches once, unless its arguments do not fit. -/
theorem Inspects.run_of_refines (h : Inspects v code fits) {type : OptionType} {n : Option Value}
    (hrefines : Refines m s s' v type n) :
    ∃ result, code.run.run s = pure (result, if fits type then s' else s) := by
  cases h with
  | held? => exact ⟨_, hrefines.held?⟩
  | isPresent => exact ⟨_, hrefines.isPresent⟩
  | isAbsent => exact ⟨_, hrefines.isAbsent⟩
  | unwrap => exact ⟨_, hrefines.unwrap⟩
  | unwrapOr default =>
    rw [hrefines.unwrapOr]
    by_cases hfits : default.conformsTo type.inner = true
    · exact ⟨_, by rw [if_pos hfits, if_pos hfits]⟩
    · exact ⟨_, by rw [if_neg hfits, if_neg hfits]⟩
  | orElse alternative =>
    rw [hrefines.orElse]
    by_cases hfits : type.isInstance alternative = true
    · exact ⟨_, by rw [if_pos hfits, if_pos hfits]⟩
    · exact ⟨_, by rw [if_neg hfits, if_neg hfits]⟩

end Optional

namespace Session

/-! ## Operations in a row -/

/-- The questions that an operation on `v` asks. There are none if `v` is no option, or if the
operation is given another value that does not fit. Otherwise `v` is matched, and then a function
asks `asked x` if it is called with `x`. -/
def asksOn (s : Session) (v : EnumValue) (fits : OptionType → Bool)
    (asked : Value → List Question) : List Question :=
  match s.options.typeOf v with
  | .ok type => if fits type then Optional.question v :: v.fields.flatMap asked else []
  | .error _ => []

/-- `Asks s asked s'`: operations on the session `s` leave `s'`, and `asked` is what they ask of the
matcher of the session, in this order. Types are added without asking. A client asks in any of three
ways; the bodies of its arms do what they do afterwards, in operations of their own. Functions that
are passed to operations on options work in the session too, with any state of their own. -/
inductive Asks : Session → List Question → Session → Prop
  | refl {s : Session} : Asks s [] s
  | trans {s₁ s₂ s₃ : Session} {asked asked' : List Question} (h : Asks s₁ asked s₂)
      (h' : Asks s₂ asked' s₃) : Asks s₁ (asked ++ asked') s₃
  | types {s : Session} {q : Request} (hq : s.Permits q) : Asks s [] (s.after q)
  | request {s : Session} {R : Type} {q : Matcher.Request R} (hq : q.type ∈ s.registry.types) :
      Asks s [q.question] { s with matcher := (s.matcher.serve q).2 }
  | inspect {s : Session} {v : EnumValue} {α : Type} {code : OptionsT Id α}
      {fits : OptionType → Bool} (hv : v.WellFormed s.registry)
      (hcode : Optional.Inspects v code fits) :
      Asks s (s.asksOn v fits fun _ => []) (code.run.run s).run.2
  | map {s : Session} {v : EnumValue} {into : OptionType} {σ : Type} {a : σ}
      {f : Value → SessionT (StateM σ) Value} {asked : Value → List Question}
      (hv : v.WellFormed s.registry)
      (hf : s.options.isOption v = true → ∀ x ∈ v.fields,
        Asks (s.afterMatch v) (asked x) (((f x).run (s.afterMatch v)).run a).1.2) :
      Asks s (s.asksOn v (fun _ => true) asked) (((Optional.map v into f).run.run s).run a).1.2
  | andThen {s : Session} {v : EnumValue} {into : OptionType} {σ : Type} {a : σ}
      {f : Value → OptionsT (StateM σ) EnumValue} {asked : Value → List Question}
      (hv : v.WellFormed s.registry)
      (hf : s.options.isOption v = true → ∀ x ∈ v.fields,
        Asks (s.afterMatch v) (asked x) (((f x).run.run (s.afterMatch v)).run a).1.2) :
      Asks s (s.asksOn v (fun _ => true) asked) (((Optional.andThen v into f).run.run s).run a).1.2

variable {s s' : Session} {v : EnumValue} {fits : OptionType → Bool} {type : OptionType}
  {n : Option Value} {asked : Value → List Question}

/-- An operation on what is no option asks nothing. -/
theorem asksOn_of_error {e : OptionError} (h : s.options.typeOf v = .error e) :
    s.asksOn v fits asked = [] := by
  rw [asksOn, h]

/-- An operation on an option asks its question, and then what the function asks about the value held.
-/
theorem IsOption.asksOn (h : s.IsOption v type n) : s.asksOn v fits asked =
    if fits type then Optional.question v :: n.toList.flatMap asked else [] := by
  rw [Session.asksOn, h.typeOf, h.represents.fields_eq]

theorem IsOption.isOption (h : s.IsOption v type n) : s.options.isOption v = true := by
  have htype := h.typeOf
  unfold OptionTable.typeOf at htype
  have hid : s.options.withId? v.type.id = some type := by
    cases hid : s.options.withId? v.type.id with
    | some _ =>
      rw [hid] at htype
      exact congrArg some (Except.ok.inj htype)
    | none =>
      rw [hid] at htype
      cases htype
  -- both questions go to the dictionary by identities
  exact Dict.contains_iff.mpr ⟨type, hid⟩

/-- A well-formed value has no option type, or it is an option. -/
theorem Reachable.option_cases (hs : s.Reachable) (hv : v.WellFormed s.registry) :
    (∃ e, s.options.typeOf v = .error e) ∨ ∃ type n, s.IsOption v type n := by
  cases htype : s.options.typeOf v with
  | error e => exact .inl ⟨e, rfl⟩
  | ok type =>
    obtain ⟨hmem, hinstance⟩ := hs.typeOf_eq_ok_iff.mp htype
    exact .inr ⟨type, hs.exists_isOption hv hmem hinstance⟩

/-- A request for a type, granted or not, asks nothing of the matcher. -/
theorem after_matcher (s : Session) (q : Request) : (s.after q).matcher = s.matcher := by
  cases q with
  | register => rfl
  | registerInstance => rfl
  | optionOver inner =>
    have hafter : (s.after (.optionOver inner)) = (s.optionOver inner).2 := rfl
    obtain ⟨result, s', hgiven⟩ : ∃ result s', s.optionOver inner = (result, s') := ⟨_, _, rfl⟩
    rw [hafter, hgiven]
    rcases optionOver_cases hgiven with ⟨-, -, -, rfl⟩ | ⟨-, ⟨-, -, -, rfl⟩ | ⟨-, -, -, -, rfl⟩⟩
    · rfl
    · rfl
    · rfl

/-- The match that operations on options share asks their one question. -/
theorem afterMatch_matcher (s : Session) (v : EnumValue) :
    (s.afterMatch v).matcher = s.matcher.ask (Optional.question v) :=
  rfl

/-- An operation on `v` leaves the session alone if it refuses its arguments. Otherwise it leaves the
one after the match, or what the function leaves if it is called: `called x` on `x`. -/
theorem Reachable.matcher_eq_of_asksOn (hs : s.Reachable) (hv : v.WellFormed s.registry)
    (called : Value → Session) (hrefused : ∀ e, s.options.typeOf v = .error e → s' = s)
    (hmatched : ∀ type n, s.IsOption v type n →
      s' = if fits type then n.elim (s.afterMatch v) called else s)
    (hcalled : s.options.isOption v = true → ∀ x ∈ v.fields, (called x).Reachable ∧
      (called x).matcher = (s.afterMatch v).matcher.askAll (asked x)) :
    s'.Reachable ∧ s'.matcher = s.matcher.askAll (s.asksOn v fits asked) := by
  rcases hs.option_cases hv with ⟨e, htype⟩ | ⟨type, n, hoption⟩
  · rw [hrefused e htype, asksOn_of_error htype]
    exact ⟨hs, rfl⟩
  · rw [hmatched type n hoption, hoption.asksOn]
    by_cases hfits : fits type = true
    · rw [if_pos hfits, if_pos hfits]
      have hfields := hoption.represents.fields_eq
      cases n with
      | none => exact ⟨hs.afterMatch hv, rfl⟩
      | some x =>
        -- the match has asked first, and the function goes on from there
        obtain ⟨hreachable, hmatcher⟩ := hcalled hoption.isOption x (by simp [hfields])
        refine ⟨hreachable, hmatcher.trans ?_⟩
        simp [Matcher.askAll, afterMatch_matcher]
    · rw [if_neg hfits, if_neg hfits]
      exact ⟨hs, rfl⟩

/-- Induction on the operations. A function that is called starts after the match, where the question
has been asked; what it leaves is what its operation leaves. -/
theorem Asks.reachable_and_matcher_eq {asked : List Question} (h : Asks s asked s')
    (hs : s.Reachable) : s'.Reachable ∧ s'.matcher = s.matcher.askAll asked := by
  induction h with
  | refl => exact ⟨hs, rfl⟩
  | trans _ _ ih ih' =>
    obtain ⟨hs₂, hmatcher⟩ := ih hs
    obtain ⟨hs₃, hmatcher'⟩ := ih' hs₂
    exact ⟨hs₃, by rw [hmatcher', hmatcher, Matcher.askAll_append]⟩
  | types hq => exact ⟨hs.after hq, after_matcher _ _⟩
  | @request s R q hq =>
    exact ⟨hs.next (.matching (hs.consistent.matcher.serve q hq)),
      Matcher.serve_eq_ask s.matcher q⟩
  | inspect hv hcode =>
    refine hs.matcher_eq_of_asksOn hv (fun _ => _) ?_ ?_ fun _ _ _ => ⟨hs.afterMatch hv, rfl⟩
    · intro e htype
      rw [hcode.run_of_refuses (refuses_of_typeOf htype)]
      rfl
    · intro type n hoption
      obtain ⟨result, hrun⟩ := hcode.run_of_refines hoption.refines
      rw [hrun]
      cases n <;> rfl
  | map hv _ ih =>
    refine hs.matcher_eq_of_asksOn hv _ ?_ ?_ fun hoption x hx =>
      ih hoption x hx (hs.afterMatch hv)
    · intro e htype
      rw [(refuses_of_typeOf htype).map]
      rfl
    · intro type n hoption
      rw [hoption.refines.map, if_pos rfl]
      cases n <;> rfl
  | andThen hv _ ih =>
    refine hs.matcher_eq_of_asksOn hv _ ?_ ?_ fun hoption x hx =>
      ih hoption x hx (hs.afterMatch hv)
    · intro e htype
      rw [(refuses_of_typeOf htype).andThen]
      rfl
    · intro type n hoption
      rw [hoption.refines.andThen, if_pos rfl]
      cases n <;> rfl

end Session

namespace Matcher

/-- The matcher after requests of any kind, with results of any type, one after the other. -/
def serveEach (m : Matcher) (requests : List (Σ R : Type, Request R)) : Matcher :=
  requests.foldl (fun m q => (m.serve q.2).2) m

/-- Requests in a row change a matcher as their questions do. -/
theorem serveEach_eq_askAll (m : Matcher) (requests : List (Σ R : Type, Request R)) :
    m.serveEach requests = m.askAll (requests.map (·.2.question)) := by
  induction requests generalizing m with
  | nil => rfl
  | cons q requests ih =>
    show (m.serve q.2).2.serveEach requests = _
    rw [ih, serve_eq_ask]
    rfl

/-- Which plans are kept, exactly. The keys of the plans kept are those of the questions that are
accepted, each once, in the order in which they were first asked, as far as there is room (`Account`). A
question that was asked before, one that is rejected, and one that comes when there is no room change
nothing; any other adds its plan at the end, and what is kept stays in its place. So it is for a matcher
of any capacity, and for that of a session, where operations on options ask as well, and so do the
functions that are passed to them. -/
theorem plans_first_kept :
    (∀ (capacity : Nat) (requests more : List (Σ R : Type, Request R)),
      Account capacity (requests.map (·.2.question)) (serveEach ⟨capacity, []⟩ requests) ∧
        (serveEach ⟨capacity, []⟩ requests).plans
          <+: (serveEach ⟨capacity, []⟩ (requests ++ more)).plans) ∧
    ∀ asked s, Session.Asks {} asked s →
      Account defaultCapacity asked s.matcher ∧
        ∀ more s', Session.Asks s more s' → s.matcher.plans <+: s'.matcher.plans := by
  refine ⟨?_, ?_⟩
  · intro capacity requests more
    rw [serveEach_eq_askAll, serveEach_eq_askAll, List.map_append, askAll_append]
    exact ⟨(keepsFirst_askAll capacity _).account, prefix_askAll _ _⟩
  · intro asked s h
    obtain ⟨hs, hmatcher⟩ := h.reachable_and_matcher_eq .new
    refine ⟨?_, ?_⟩
    · rw [hmatcher]
      exact (keepsFirst_askAll defaultCapacity asked).account
    · intro more s' h'
      rw [(h'.reachable_and_matcher_eq hs).2]
      exact prefix_askAll _ _

/-- A function that checks a wildcard arm, and then gives back what it is called with. -/
def checkingWildcard (x : Value) : SessionT (StateM Unit) Value := do
  modify fun s => (s.validate Registry.message [.otherwise .ignore fun _ => ()]).2
  pure x

/-- A matcher with room for one plan keeps the one of the first list of arms, and neither a rejected
list nor one that comes later. A session keeps the plan for matching options, and then the one for the
arm that the function checks. -/
theorem plans_first_kept_messages :
    (serveEach ⟨1, []⟩ (messageRequests.map fun q => ⟨_, q⟩)).cachedPlans = 1 ∧
      ∃ s, Session.Asks {} [Optional.question World.writtenOption,
          ⟨Registry.message, [⟨.wildcard, .ignore⟩]⟩] s ∧ s.matcher.cachedPlans = 2 := by
  obtain ⟨hserved, hsession⟩ := plans_first_kept
  refine ⟨?_, ?_⟩
  · rw [(hserved 1 (messageRequests.map fun q => ⟨_, q⟩) []).1.cachedPlans_eq]
    rfl
  -- the type of messages and its option type are registered, and the option is mapped
  have hmessage : Session.Asks {} []
      (Session.after {} (.register "Message" Registry.message.variants)) :=
    .types (Registry.declares_message _)
  have hoption : Session.Asks {} [] World.messages.session :=
    .trans hmessage (.types (q := .optionOver (.enum Registry.message.ref))
      ⟨Registry.message, List.mem_singleton.mpr rfl, rfl⟩)
  have hwritten : World.writtenOption.WellFormed World.messages.session.registry :=
    World.reachable_messages.sound.held _ (by simp [World.messages])
  have hmapped : Session.Asks World.messages.session
      (World.messages.session.asksOn World.writtenOption (fun _ => true) fun _ =>
        [⟨Registry.message, [⟨.wildcard, .ignore⟩]⟩])
      (((Optional.map World.writtenOption World.optionOfMessage checkingWildcard).run.run
        World.messages.session).run ()).1.2 :=
    .map hwritten fun _ _ _ =>
      .request (q := .validate Registry.message [.otherwise .ignore fun _ => ()]) List.mem_cons_self
  refine ⟨_, hoption.trans hmapped, ?_⟩
  rw [(hsession _ _ (hoption.trans hmapped)).1.cachedPlans_eq]
  rfl

end Matcher

end TaggedUnion
