import TaggedUnion.Error
import TaggedUnion.Proofs.Schema.InstanceName
import TaggedUnion.Proofs.Session.Invariant

/-!
# What has been registered

The registry of a session has a table of types by name, a counter of identities, and in each type an
index of its variants. Whether they agree, and answer rightly, is a question about the past: which
requests for types there were, which of them registered one, and which type that was. Here a run of
requests, granted or refused, keeps a log of just that.

* `Session.Request`, `Session.answer`: a request for a type, what it gives, and the session after it.
* `Session.Logged`: the sessions that requests and matches bring about, each with the log of what was
  registered on the way. `Session.Reachable.exists_logged`: every reachable session has one.
* `Session.answer_cases`: the step. A request registers a type under its name, or changes nothing.
* `Session.Records`: what a log says about a registry; `Session.Logged.records` is the induction.
* `Session.Logged.registry_faithful`: counts, identities and look-ups are those of the log.
* `Session.Logged.types_agree_iff_names_agree`: a type is told by its name, and a name is refused only
  where the log has it from a request of the same kind.
-/

namespace TaggedUnion

namespace Session

/-- A request for a type: under a name of its own, as an instance of a generic, or as an option type
over another type. -/
inductive Request
  | register (name : String) (variants : List Variant)
  | registerInstance (generic : String) (args : List FieldType) (variants : List Variant)
  | optionOver (inner : FieldType)

namespace Request

/-- The name of the type asked for. -/
def name : Request → String
  | .register name _ => name
  | .registerInstance generic args _ => instanceName generic args
  | .optionOver inner => instanceName OptionType.generic [inner]

/-- The variants of the type asked for. -/
def variants : Request → List Variant
  | .register _ vs | .registerInstance _ _ vs => vs
  | .optionOver inner => OptionType.variants inner

/-- The part of the name that is checked by itself. -/
def plainName : Request → String
  | .register name _ => name
  | .registerInstance generic _ _ => generic
  | .optionOver _ => OptionType.generic

/-- Whether the name is the client's own, and not built from a generic and its arguments. -/
def isPlain : Request → Bool
  | .register .. => true
  | _ => false

end Request

/-- The type that a request gives, or the error, and the session after it. -/
def answer (s : Session) : Request → Except Error EnumType × Session
  | .register name vs => (s.register name vs).map (·.mapError .registry) id
  | .registerInstance generic args vs =>
    (s.registerInstance generic args vs).map (·.mapError .registry) id
  | .optionOver inner =>
    (s.optionOver inner).map (fun given => (given.map (·.type)).mapError .option) id

/-- The session after a request, granted or not. -/
def after (s : Session) (q : Request) : Session :=
  (s.answer q).2

/-- The type asked for is an option type that has been made before. -/
def has (s : Session) : Request → Bool
  | .optionOver inner => (s.options.over? inner).isSome
  | _ => false

/-- The type that a request registers. One that was made before is given, but not registered. -/
def registered? (s : Session) (q : Request) : Option EnumType :=
  if s.has q then none else (s.answer q).1.toOption

/-- A client can refer to types only after they have been registered. -/
def Permits (s : Session) : Request → Prop
  | .register _ vs => s.registry.Declares vs
  | .registerInstance _ args vs => (∀ arg ∈ args, s.registry.Knows arg) ∧ s.registry.Declares vs
  | .optionOver inner => s.registry.Knows inner

/-- `Logged log s`: requests for types, with matches in between, have made `s` of a new session, and
`log` has those that registered a type, each with this type, in their order. -/
inductive Logged : List (Request × EnumType) → Session → Prop
  | new : Logged [] {}
  | request {log : List (Request × EnumType)} {s : Session} (h : Logged log s) {q : Request}
      (hq : s.Permits q) :
      Logged (log ++ ((s.registered? q).map (q, ·)).toList) (s.after q)
  | matching {log : List (Request × EnumType)} {s : Session} (h : Logged log s) {m : Matcher}
      (hm : m.Reachable s.registry) : Logged log { s with matcher := m }

/-! ## One request -/

variable {s s' : Session} {q : Request} {t : EnumType} {log : List (Request × EnumType)}

/-- To rename errors changes no success. -/
theorem mapError_eq_ok_iff {ε ε' α : Type} {x : Except ε α} {f : ε → ε'} {a : α} :
    x.mapError f = .ok a ↔ x = .ok a := by
  cases x <;> simp [Except.mapError]

/-- A request to enter a type fails and changes nothing, or it adds the type under its name. -/
theorem answer_cases_of_enter {result : Except RegistryError EnumType} {r : Registry}
    (hanswer : s.answer q = (result.mapError .registry, { s with registry := r }))
    (hr : s.registry.enter q.plainName q.name q.variants = (result, r)) :
    (∃ e, s.answer q = (.error e, s)) ∨
      checkPlainName q.plainName = .ok () ∧
        ∃ t, s.answer q = (.ok t, s.after q) ∧
          s.registry.insert q.name q.variants = (.ok t, (s.after q).registry) := by
  have hafter : s.after q = { s with registry := r } := congrArg Prod.snd hanswer
  cases result with
  | error e =>
    obtain rfl := Registry.eq_of_enter_eq_error hr
    exact .inl ⟨.registry e, hanswer⟩
  | ok t =>
    obtain ⟨hplain, hinsert⟩ := Registry.enter_eq_ok_iff.mp hr
    rw [hafter]
    exact .inr ⟨hplain, t, hanswer, hinsert⟩

/-- The step: a request fails and changes nothing; or it is for an option type made before, and changes
nothing; or it adds the type to the registry under its name. -/
theorem answer_cases (s : Session) (q : Request) :
    (∃ e, s.answer q = (.error e, s)) ∨
      (s.has q = true ∧ ∃ t, s.answer q = (.ok t, s)) ∨
      s.has q = false ∧ checkPlainName q.plainName = .ok () ∧
        ∃ t, s.answer q = (.ok t, s.after q) ∧
          s.registry.insert q.name q.variants = (.ok t, (s.after q).registry) := by
  cases q with
  | register name vs =>
    refine (answer_cases_of_enter ?_ rfl).imp_right fun hadded => .inr ⟨rfl, hadded⟩
    rfl
  | registerInstance generic args vs =>
    refine (answer_cases_of_enter ?_ rfl).imp_right fun hadded => .inr ⟨rfl, hadded⟩
    rfl
  | optionOver inner =>
    have hanswer : ∀ result s', s.optionOver inner = (result, s') →
        s.answer (.optionOver inner) = ((result.map (·.type)).mapError .option, s') := by
      intro result s' hgiven
      rw [answer, hgiven]
      rfl
    rcases optionOver_cases (Prod.eta (s.optionOver inner)).symm with ⟨o, hover, ho, hs⟩ |
      ⟨hover, ⟨e, -, he, hs⟩ | ⟨t, r, hr, ht, hs⟩⟩
    · have hhas : s.has (.optionOver inner) = true := Option.isSome_iff_exists.mpr ⟨o, hover⟩
      exact .inr (.inl ⟨hhas, o.type, hanswer _ _ (Prod.ext ho hs)⟩)
    · exact .inl ⟨.option (.registry e), hanswer _ _ (Prod.ext he hs)⟩
    · have hhas : s.has (.optionOver inner) = false := by
        rw [has, hover]
        rfl
      have hplain : checkPlainName OptionType.generic = .ok () := rfl
      have hgiven := hanswer _ _ (Prod.ext ht rfl)
      have hafter : (s.after (.optionOver inner)).registry = r := congrArg Session.registry hs
      refine .inr (.inr ⟨hhas, hplain, t, hgiven, ?_⟩)
      rw [hafter]
      exact Registry.insert_of_registerInstance hr

/-- A request that fails gives the session back as it was. -/
theorem eq_of_answer_eq_error {e : Error} (h : s.answer q = (.error e, s')) : s' = s := by
  rcases s.answer_cases q with ⟨_, hfails⟩ | ⟨-, _, hgiven⟩ | ⟨-, -, _, hgiven, -⟩
  · rw [hfails] at h
    cases h
    rfl
  · rw [hgiven] at h
    cases h
  · rw [hgiven] at h
    cases h

/-- A request registers a type under its name, or changes nothing. -/
theorem registered?_cases (s : Session) (q : Request) :
    (s.registered? q = none ∧ s.after q = s) ∨
      ∃ t, s.registered? q = some t ∧ checkPlainName q.plainName = .ok () ∧
        s.registry.insert q.name q.variants = (.ok t, (s.after q).registry) := by
  unfold registered?
  rcases s.answer_cases q with ⟨e, hfails⟩ | ⟨hhas, t, hgiven⟩ | ⟨hhas, hplain, t, hgiven, hinsert⟩
  · rw [hfails]
    exact .inl ⟨ite_self none, congrArg Prod.snd hfails⟩
  · rw [if_pos hhas]
    exact .inl ⟨rfl, congrArg Prod.snd hgiven⟩
  · rw [hhas, hgiven]
    exact .inr ⟨t, rfl, hplain, hinsert⟩

/-- A request that clients may make is a step of the session. -/
theorem Reachable.after (hs : s.Reachable) (hq : s.Permits q) : (s.after q).Reachable := by
  cases q with
  | register name vs => exact hs.next (.register hq rfl)
  | registerInstance generic args vs => exact hs.next (.registerInstance hq.1 hq.2 rfl)
  | optionOver inner => exact hs.next (.optionOver hq rfl)

/-! ## All requests -/

/-- A session that has a log is one that operations bring about. -/
theorem Logged.reachable (h : Logged log s) : s.Reachable := by
  induction h with
  | new => exact .new
  | request _ hq ih => exact ih.after hq
  | matching _ hm ih => exact ih.next (.matching hm)

/-- Every session that operations can bring about has a log. -/
theorem Reachable.exists_logged (hs : s.Reachable) : ∃ log, Logged log s := by
  induction hs with
  | new => exact ⟨[], .new⟩
  | @next s s' _ hstep ih =>
    obtain ⟨log, hlog⟩ := ih
    -- whether the step succeeds or not, it is what the request does
    cases hstep with
    | @register _ name vs result hknown hr =>
      have hafter : s.after (.register name vs) = s' := congrArg Prod.snd hr
      rw [← hafter]
      exact ⟨_, hlog.request hknown⟩
    | @registerInstance _ generic args vs result hargs hknown hr =>
      have hafter : s.after (.registerInstance generic args vs) = s' := congrArg Prod.snd hr
      rw [← hafter]
      exact ⟨_, hlog.request ⟨hargs, hknown⟩⟩
    | @optionOver _ inner result hinner hr =>
      have hafter : s.after (.optionOver inner) = s' := congrArg Prod.snd hr
      rw [← hafter]
      exact ⟨_, hlog.request hinner⟩
    | matching hm => exact ⟨log, hlog.matching hm⟩

/-- The registry `r` holds the types of the log, each as it was asked for. -/
structure Records (log : List (Request × EnumType)) (r : Registry) : Prop where
  types : r.types = log.map (·.2)
  name : ∀ entry ∈ log, entry.2.name = entry.1.name
  variants : ∀ entry ∈ log, entry.2.variants = entry.1.variants
  plain : ∀ entry ∈ log, checkPlainName entry.1.plainName = .ok ()

/-- A run of requests: what one of them registers goes to the end of both, and nothing else changes
the registry. -/
theorem Logged.records (h : Logged log s) : Records log s.registry := by
  induction h with
  | new => exact ⟨rfl, by simp, by simp, by simp⟩
  | @request log s _ q _ ih =>
    -- the request changes nothing, or one type goes to the end of the log and of the registry
    rcases s.registered?_cases q with ⟨hnone, hsame⟩ | ⟨t, hsome, hplain, hinsert⟩
    · rw [hnone, hsame, Option.map_none, Option.toList_none, List.append_nil]
      exact ih
    · obtain ⟨-, -, ht, -⟩ := Registry.insert_eq_ok_iff.mp hinsert
      rw [hsome, Option.map_some, Option.toList_some]
      refine ⟨?_, ?_, ?_, ?_⟩
      · rw [Registry.types_of_insert hinsert, ih.types, List.map_append, List.map_singleton]
      · rw [List.forall_mem_append, List.forall_mem_singleton]
        exact ⟨ih.name, Registry.name_of_insert hinsert⟩
      · rw [List.forall_mem_append, List.forall_mem_singleton]
        exact ⟨ih.variants, congrArg EnumType.variants ht⟩
      · rw [List.forall_mem_append, List.forall_mem_singleton]
        exact ⟨ih.plain, hplain⟩
  | matching _ _ ih => exact ih

namespace Records

variable {r : Registry}

/-- The log has the names of the registered types, in their order. -/
theorem map_name (h : Records log r) : log.map (·.1.name) = r.types.map (·.name) := by
  rw [h.types, List.map_map]
  exact List.map_congr_left fun entry hentry => (h.name entry hentry).symm

/-- The registered types are those of the log. -/
theorem mem_types_iff (h : Records log r) : t ∈ r.types ↔ ∃ q, (q, t) ∈ log := by
  rw [h.types, List.mem_map]
  constructor
  · rintro ⟨⟨q, t'⟩, hentry, rfl⟩
    exact ⟨q, hentry⟩
  · rintro ⟨q, hentry⟩
    exact ⟨(q, t), hentry, rfl⟩

/-- A look-up by name goes back to the request that registered this name. -/
theorem lookup?_eq_some_iff (h : Records log r) (hr : r.Consistent) {name : String} :
    r.lookup? name = some t ↔ ∃ q, (q, t) ∈ log ∧ q.name = name := by
  rw [hr.lookup?_eq_some_iff, h.mem_types_iff]
  constructor
  · rintro ⟨⟨q, hentry⟩, rfl⟩
    exact ⟨q, hentry, (h.name _ hentry).symm⟩
  · rintro ⟨q, hentry, rfl⟩
    exact ⟨⟨q, hentry⟩, h.name _ hentry⟩

end Records

/-- The registry is what its history says. The size of its table, its counter and the number of requests
that registered a type are one, and the identities are the numbers below it. A look-up by name finds the
type that was registered under this name, as its request asked for it, and nothing else; the index of each
type finds its variants. A request that fails, or registers nothing, gives the session back as it was, and
whatever clients do later, a type stays in its place with all its parts. Identities count on without end
here; a counter of 32 bits does the same for as long as the count fits. -/
theorem Logged.registry_faithful (h : Logged log s) :
    s.registry.count = log.length ∧ s.registry.nextId = s.registry.count ∧
      s.registry.types.map (·.id.index) = List.range s.registry.count ∧
      (∀ q t, s.registered? q = some t →
        t.id.index = s.registry.nextId ∧ (s.after q).registry.types = s.registry.types ++ [t] ∧
          (s.after q).registry.nextId = s.registry.nextId + 1) ∧
      (log.map (·.1.name)).Nodup ∧
      (∀ q t, (q, t) ∈ log → t.name = q.name ∧ t.variants = q.variants) ∧
      (∀ name t, s.registry.lookup? name = some t ↔ ∃ q, (q, t) ∈ log ∧ q.name = name) ∧
      (∀ name t, s.registry.lookup? name = some t → t.name = name) ∧
      (∀ t ∈ s.registry.types, t.Indexed) ∧
      (∀ q, s.registered? q = none → s.after q = s) ∧
      (∀ q e s', s.answer q = (.error e, s') → s' = s ∧ s.registered? q = none) ∧
      ∀ w u : World, w.Reachable → w.session = s → World.Run w u →
        (∃ log', Logged log' u.session) ∧ ∀ t ∈ s.registry.types,
          u.session.registry.types[t.id.index]? = some t ∧
            u.session.registry.lookup? t.name = some t := by
  have hrecords := h.records
  have hcon : s.registry.Consistent := h.reachable.consistent.registry.consistent
  refine ⟨?_, hcon.nextId_eq, hcon.map_index, ?_, ?_, ?_, ?_, ?_, ?_, ?_, ?_, ?_⟩
  · rw [Registry.count_eq_length_types, hrecords.types, List.length_map]
  · -- a type is registered at the end, under the next identity
    intro q t hq
    rcases s.registered?_cases q with ⟨hnone, -⟩ | ⟨t', hsome, -, hinsert⟩
    · rw [hnone] at hq
      cases hq
    · rw [hsome] at hq
      cases hq
      obtain ⟨-, -, ht, hr⟩ := Registry.insert_eq_ok_iff.mp hinsert
      exact ⟨congrArg (·.id.index) ht, Registry.types_of_insert hinsert,
        congrArg Registry.nextId hr⟩
  · rw [hrecords.map_name]
    exact hcon.names_nodup
  · intro q t hentry
    exact ⟨hrecords.name _ hentry, hrecords.variants _ hentry⟩
  · intro name t
    exact hrecords.lookup?_eq_some_iff hcon
  · intro name t hfound
    exact (hcon.lookup?_eq_some_iff.mp hfound).2
  · intro t ht
    exact (hcon.wellFormed t ht).indexed
  · intro q hq
    rcases s.registered?_cases q with ⟨-, hsame⟩ | ⟨t, hsome, -, -⟩
    · exact hsame
    · rw [hsome] at hq
      cases hq
  · intro q e s' hq
    refine ⟨eq_of_answer_eq_error hq, ?_⟩
    unfold registered?
    rw [hq]
    exact ite_self none
  · -- runs only add types, and the registry they lead to is consistent again
    rintro w u hw rfl hrun
    have hleads := hrun.leads hw.sound
    have hlater := hleads.sound.registry.consistent
    refine ⟨hleads.sound.session.exists_logged, fun t ht => ?_⟩
    have hstays : t ∈ u.session.registry.types := hleads.types.subset ht
    exact ⟨hlater.getElem?_index hstays, hlater.lookup?_eq_some_iff.mpr ⟨hstays, rfl⟩⟩

/-- The requests behind `World.messages`: a type of messages, and the option type over it. -/
def messagesLog : List (Request × EnumType) :=
  [(.register "Message" Registry.message.variants, Registry.message),
    (.optionOver (.enum Registry.message.ref), World.optionOfMessage.type)]

/-- The world with one message has this log. -/
theorem logged_messages : Logged messagesLog World.messages.session := by
  have hmem : Registry.message ∈ Registry.onlyMessage.types := List.mem_singleton.mpr rfl
  have hmessage : Logged [(.register "Message" Registry.message.variants, Registry.message)]
      { registry := .onlyMessage } :=
    Logged.new.request (q := .register "Message" Registry.message.variants)
      (Registry.declares_message _)
  exact hmessage.request (q := .optionOver (.enum Registry.message.ref))
    ⟨Registry.message, hmem, rfl⟩

/-- The log of the messages counts their types and finds them by name. -/
theorem Logged.registry_faithful_messages :
    World.messages.session.registry.count = 2 ∧
      World.messages.session.registry.lookup? "Option<Message>"
        = some World.optionOfMessage.type := by
  obtain ⟨hcount, -, -, -, -, -, hlookup, -⟩ := logged_messages.registry_faithful
  refine ⟨hcount, ?_⟩
  rw [hlookup]
  exact ⟨.optionOver (.enum Registry.message.ref), by simp [messagesLog], by decide⟩

/-! ## Names in use -/

/-- Only a name that is built from a generic has a bracket in it. -/
theorem Request.isPlain_iff (hplain : checkPlainName q.plainName = .ok ()) :
    q.isPlain = true ↔ '<' ∉ q.name.toList := by
  have hinstance : ∀ generic args, '<' ∈ (instanceName generic args).toList := by
    intro generic args
    simp [instanceName, String.toList_append]
  -- a plain name was checked for brackets, and a generated one has them
  cases q with
  | register name vs => exact iff_of_true rfl (checkPlainName_eq_ok_iff.mp hplain).2.1
  | registerInstance generic args vs =>
    exact iff_of_false Bool.false_ne_true (not_not_intro (hinstance generic args))
  | optionOver inner =>
    exact iff_of_false Bool.false_ne_true (not_not_intro (hinstance OptionType.generic [inner]))

/-- The request is refused because there is a type under this name. -/
def NameTaken (s : Session) (q : Request) (name : String) : Prop :=
  (s.answer q).1 = .error (.registry (.duplicateTypeName name)) ∨
    (s.answer q).1 = .error (.option (.registry (.duplicateTypeName name)))

/-- A registration that is refused because of the name has passed all other checks. -/
theorem insert_of_enter_eq_duplicateTypeName {r : Registry} {plain whole name : String}
    {vs : List Variant} (h : (r.enter plain whole vs).1 = .error (.duplicateTypeName name)) :
    checkPlainName plain = .ok () ∧ (r.insert whole vs).1 = .error (.duplicateTypeName name) := by
  unfold Registry.enter at h
  cases hplain : checkPlainName plain with
  | error e =>
    rw [hplain] at h
    cases h
    exact absurd hplain checkPlainName_ne_duplicateTypeName
  | ok _ =>
    rw [hplain] at h
    exact ⟨rfl, h⟩

/-- A request that is refused because of the name was a registration that passed all other checks. -/
theorem NameTaken.insert_eq_error {name : String} (h : s.NameTaken q name) :
    checkPlainName q.plainName = .ok () ∧
      (s.registry.insert q.name q.variants).1 = .error (.duplicateTypeName name) := by
  have hregistry : ∀ {x : Except RegistryError EnumType},
      x.mapError Error.registry = .error (.registry (.duplicateTypeName name)) ∨
        x.mapError Error.registry = .error (.option (.registry (.duplicateTypeName name))) →
      x = .error (.duplicateTypeName name) := by
    intro x hx
    cases x with
    | error e => simpa [Except.mapError] using hx
    | ok result => simp [Except.mapError] at hx
  cases q with
  | register name' vs => exact insert_of_enter_eq_duplicateTypeName (hregistry h)
  | registerInstance generic args vs =>
    exact insert_of_enter_eq_duplicateTypeName (hregistry h)
  | optionOver inner =>
    have hresult : ((s.optionOver inner).1.map (·.type)).mapError Error.option
          = .error (.registry (.duplicateTypeName name)) ∨
        ((s.optionOver inner).1.map (·.type)).mapError Error.option
          = .error (.option (.registry (.duplicateTypeName name))) := h
    rcases optionOver_cases (Prod.eta (s.optionOver inner)).symm with ⟨o, -, ho, -⟩ |
      ⟨-, ⟨e, hreg, he, -⟩ | ⟨t, r, -, ht, -⟩⟩
    · simp [ho, Except.map, Except.mapError] at hresult
    · -- it was not made before, so it is an instance to be registered
      obtain rfl : e = .duplicateTypeName name := by
        simpa [he, Except.map, Except.mapError] using hresult
      exact insert_of_enter_eq_duplicateTypeName hreg
    · simp [ht, Except.map, Except.mapError] at hresult

/-- The bracket in it tells which kind of request a name comes from. -/
theorem Records.isPlain_eq {r : Registry} (h : Records log r) {entry : Request × EnumType}
    (hentry : entry ∈ log) (hplain : checkPlainName q.plainName = .ok ())
    (hname : entry.1.name = q.name) : entry.1.isPlain = q.isPlain := by
  rw [Bool.eq_iff_iff, Request.isPlain_iff (h.plain entry hentry), Request.isPlain_iff hplain, hname]

/-- Names and identities agree. Two field types have one text exactly if they are the same by identity,
be they scalars, plain types, instances or option types. And the two ways to name a type do not meet:
a request is refused because its name is taken only if an earlier request of the same kind registered
a type under just this name, and no request of the other kind did. -/
theorem Logged.types_agree_iff_names_agree (h : Logged log s) :
    (∀ a b, s.registry.Knows a → s.registry.Knows b →
      (a.render = b.render ↔ (a == b) = true)) ∧
    ∀ q name, s.NameTaken q name →
      name = q.name ∧ (∃ entry ∈ log, entry.1.name = name) ∧
        ∀ entry ∈ log, entry.1.name = name → entry.1.isPlain = q.isPlain := by
  have hreg : s.registry.Reachable := h.reachable.consistent.registry
  have hcon : s.registry.Consistent := hreg.consistent
  refine ⟨?_, ?_⟩
  · intro a b ha hb
    rw [hcon.beq_iff_eq_of_knows ha hb]
    constructor
    · exact hreg.eq_of_render_eq ha hb
    · intro hab
      rw [hab]
  · intro q name htaken
    -- the request passed all other checks, so a type is found under its name
    obtain ⟨hplain, hinsert⟩ := htaken.insert_eq_error
    obtain ⟨rfl, -, t, hlookup⟩ := Registry.insert_eq_duplicateTypeName_iff.mp hinsert
    obtain ⟨q', hentry, hname⟩ := (h.records.lookup?_eq_some_iff hcon).mp hlookup
    refine ⟨rfl, ⟨(q', t), hentry, hname⟩, ?_⟩
    intro entry hentry hname
    exact h.records.isPlain_eq hentry hplain hname

/-- Messages and options of them have different names, and the first name was taken by a plain request.
-/
theorem Logged.types_agree_iff_names_agree_messages :
    (FieldType.enum Registry.message.ref).render
        ≠ (FieldType.enum World.optionOfMessage.type.ref).render ∧
      World.messages.session.NameTaken (.register "Message" Registry.message.variants) "Message" ∧
      ∀ entry ∈ messagesLog, entry.1.name = "Message" → entry.1.isPlain = true := by
  obtain ⟨hagree, hkinds⟩ := logged_messages.types_agree_iff_names_agree
  have htaken : World.messages.session.NameTaken (.register "Message" Registry.message.variants)
      "Message" := .inl rfl
  obtain ⟨-, -, hplain⟩ := hkinds _ _ htaken
  refine ⟨?_, htaken, hplain⟩
  have hmessage : World.messages.session.registry.Knows (.enum Registry.message.ref) :=
    ⟨Registry.message, List.mem_cons_self, rfl⟩
  have hoption : World.messages.session.registry.Knows (.enum World.optionOfMessage.type.ref) :=
    ⟨World.optionOfMessage.type, List.mem_cons_of_mem _ List.mem_cons_self, rfl⟩
  rw [Ne, hagree _ _ hmessage hoption]
  decide

end Session

end TaggedUnion
