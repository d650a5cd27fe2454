import TaggedUnion.Proofs.Scan
import TaggedUnion.Proofs.Value.Acceptance

/-!
# What is reported of a rejected payload

A payload can be wrong in many ways at once, and one of them is reported. Which one, is said here of the
payload and the declared shape alone.

* `Shape.PositionDefect`, `Shape.EntryDefect`: what is wrong with one value by position, or with one field
  by name, given those before it.
* `checkPositions_eq_error_iff`, `fillSlots_eq_error_iff`, `slotValues_eq_error_iff`: one statement for
  each scan, by induction along it.
* `Shape.Misfits`: what is reported of a payload for a shape; `Shape.conform_eq_error_iff` proves it.
* `EnumType.Rejects`: what is reported of a request for an instance.
* `Registry.Reachable.construct_reports_first_defect`: that it is reported.
-/

namespace TaggedUnion

namespace Shape

/-- What is wrong with the value at a position: it is not of the type declared there. The position is the
number of those before it. -/
def PositionDefect (earlier : List (FieldType × Value)) (place : FieldType × Value)
    (reason : Misfit) : Prop :=
  place.2.type.identity ≠ place.1.identity ∧
    reason = .wrongFieldType (toString earlier.length) place.1 place.2.type

/-- What is wrong with a field supplied by name, behind the fields `earlier`. There are three things, and
each supposes that those before it do not apply. -/
inductive EntryDefect (declared : List Field) (earlier : List (String × Value))
    (entry : String × Value) : Misfit → Prop
  | unknown (hunknown : entry.1 ∉ declared.map (·.name)) :
      EntryDefect declared earlier entry (.unknownField entry.1)
  | wrongType {field : Field} (hfield : field ∈ declared) (hname : field.name = entry.1)
      (htype : entry.2.type.identity ≠ field.type.identity) :
      EntryDefect declared earlier entry (.wrongFieldType entry.1 field.type entry.2.type)
  | repeated {field : Field} (hfield : field ∈ declared) (hname : field.name = entry.1)
      (htype : entry.2.type.identity = field.type.identity)
      (hearlier : entry.1 ∈ earlier.map (·.1)) :
      EntryDefect declared earlier entry (.duplicateField entry.1)

/-- What is reported of a payload for a shape. -/
inductive Misfits : Shape → Payload → Misfit → Prop
  | kind {s : Shape} {payload : Payload} (hkind : s.kind ≠ payload.kind) :
      Misfits s payload (.wrongKind s.kind payload.kind)
  | arity {types : List FieldType} {values : List Value} (hlen : types.length ≠ values.length) :
      Misfits (.positional types) (.positional values) (.wrongArity types.length values.length)
  | position {types : List FieldType} {values : List Value} {reason : Misfit}
      (hlen : types.length = values.length)
      (hfirst : FirstDefect PositionDefect [] (types.zip values) reason) :
      Misfits (.positional types) (.positional values) reason
  | entry {declared : List Field} {supplied : List (String × Value)} {reason : Misfit}
      (hfirst : FirstDefect (EntryDefect declared) [] supplied reason) :
      Misfits (.named declared) (.named supplied) reason
  /-- All that is supplied is in order. -/
  | missing {declared : List Field} {supplied : List (String × Value)} {field : Field}
      (hsound : ∀ reason, ¬ FirstDefect (EntryDefect declared) [] supplied reason)
      (hfirst : declared.find? (·.name ∉ supplied.map (·.1)) = some field) :
      Misfits (.named declared) (.named supplied) (.missingField field.name)

end Shape

open Shape (PositionDefect EntryDefect)

/-! ## The scans -/

variable {declared : List Field} {supplied : List (String × Value)} {reason : Misfit}

/-- A value is rejected for its type, and the report names both types. -/
theorem checkField_eq_error_iff {field : String} {type : FieldType} {x : Value} :
    checkField field type x = .error reason ↔
      x.type.identity ≠ type.identity ∧ reason = .wrongFieldType field type x.type := by
  unfold checkField
  by_cases hx : x.conformsTo type = true
  · simp [hx, Value.conformsTo_iff_identity_eq.mp hx]
  · simp [hx, mt Value.conformsTo_iff_identity_eq.mpr hx, @eq_comm _ reason]

/-- The scan by position stops at the first value of another type. Induction along it; the position is
the number of values passed. -/
theorem checkPositions_eq_error_iff {earlier : List (FieldType × Value)} {types : List FieldType}
    {values : List Value} :
    checkPositions earlier.length types values = .error reason ↔
      FirstDefect PositionDefect earlier (types.zip values) reason := by
  induction types generalizing earlier values with
  | nil => simp [checkPositions, not_firstDefect_nil]
  | cons type types ih =>
    cases values with
    | nil => simp [checkPositions, not_firstDefect_nil]
    | cons x xs =>
      have hrest : checkPositions (earlier ++ [(type, x)]).length types xs = .error reason ↔
          FirstDefect PositionDefect (earlier ++ [(type, x)]) (types.zip xs) reason := ih
      rw [List.length_append, List.length_singleton] at hrest
      -- what the check of this value finds is its defect
      have hdefect : ∀ reason, PositionDefect earlier (type, x) reason ↔
          checkField (toString earlier.length) type x = .error reason :=
        fun _ => checkField_eq_error_iff.symm
      rw [checkPositions, bind_eq_error_iff, List.zip_cons_cons, firstDefect_cons_iff, ← hrest]
      simp only [hdefect]
      cases checkField (toString earlier.length) type x with
      | error e => simp
      | ok _ => simp

/-- A field by name is looked up among the declared ones, and no other than the one found has its name. -/
theorem entryDefect_iff (hnodup : (declared.map (·.name)).Nodup)
    {earlier : List (String × Value)} {name : String} {x : Value} :
    EntryDefect declared earlier (name, x) reason ↔
      (declared.find? (·.name == name) = none ∧ reason = .unknownField name) ∨
      ∃ field, declared.find? (·.name == name) = some field ∧
        (checkField name field.type x = .error reason ∨
          checkField name field.type x = .ok () ∧ name ∈ earlier.map (·.1) ∧
            reason = .duplicateField name) := by
  have hnone : declared.find? (·.name == name) = none ↔ name ∉ declared.map (·.name) := by simp
  -- the search by name finds the declared field, since there is one of this name
  have hsome : ∀ field, declared.find? (·.name == name) = some field ↔
      field ∈ declared ∧ field.name = name :=
    fun _ => find?_eq_some_iff_of_nodup hnodup
  simp only [hnone, hsome, checkField_eq_error_iff, checkField_eq_ok_iff,
    Value.conformsTo_iff_identity_eq]
  constructor
  · intro h
    cases h with
    | unknown hunknown => exact .inl ⟨hunknown, rfl⟩
    | wrongType hfield hname htype => exact .inr ⟨_, ⟨hfield, hname⟩, .inl ⟨htype, rfl⟩⟩
    | repeated hfield hname htype hearlier =>
      exact .inr ⟨_, ⟨hfield, hname⟩, .inr ⟨htype, hearlier, rfl⟩⟩
  · rintro (⟨hunknown, rfl⟩ | ⟨field, ⟨hfield, hname⟩, ⟨htype, rfl⟩ | ⟨htype, hearlier, rfl⟩⟩)
    · exact .unknown hunknown
    · exact .wrongType hfield hname htype
    · exact .repeated hfield hname htype hearlier

/-- The loop that fills the slots stops at the first field that has a defect. Induction on the fields
supplied; those passed are in their slots. -/
theorem fillSlots_eq_error_iff (hnodup : (declared.map (·.name)).Nodup)
    {earlier : List (String × Value)} :
    fillSlots declared (slotsFor declared earlier) supplied = .error reason ↔
      FirstDefect (EntryDefect declared) earlier supplied reason := by
  induction supplied generalizing earlier with
  | nil => simp [fillSlots, not_firstDefect_nil]
  | cons entry rest ih =>
    obtain ⟨name, x⟩ := entry
    rw [fillSlots_cons hnodup, firstDefect_cons_iff, ← ih]
    simp only [entryDefect_iff hnodup]
    cases declared.find? (·.name == name) with
    | none => simp [@eq_comm _ reason]
    | some field =>
      show checkField name field.type x >>= _ = _ ↔ _
      rw [bind_eq_error_iff]
      simp only [Option.some.injEq, exists_eq_left', reduceCtorEq, false_and, false_or]
      cases checkField name field.type x with
      | error e => simp
      | ok _ =>
        -- the value conforms, so a filled slot is the only defect left
        by_cases hname : name ∈ earlier.map (·.1)
        · simp [hname, @eq_comm _ reason]
        · simp [hname]

/-- A slot is found empty for the first declared field that was not supplied. -/
theorem slotValues_eq_error_iff :
    slotValues declared (slotsFor declared supplied) = .error reason ↔
      ∃ field, declared.find? (·.name ∉ supplied.map (·.1)) = some field ∧
        reason = .missingField field.name := by
  induction declared with
  | nil => simp [slotValues]
  | cons field declared ih =>
    rw [slotValues_cons]
    cases hlookup : supplied.lookup field.name with
    | none =>
      have hmissing := lookup_eq_none_iff_not_mem.mp hlookup
      rw [List.find?_cons_of_pos (by simpa using hmissing)]
      simp [@eq_comm _ reason]
    | some x =>
      have hsupplied : field.name ∈ supplied.map (·.1) :=
        List.mem_map_of_mem (f := Prod.fst) (mem_of_lookup_eq_some hlookup)
      rw [List.find?_cons_of_neg (by simpa using hsupplied), ← ih]
      exact map_eq_error_iff

/-! ## Payloads -/

namespace Shape

/-- Values by position are counted first, and then checked from the front. -/
theorem conform_positional_eq_error_iff {types : List FieldType} {values : List Value} :
    (positional types).conform (.positional values) = .error reason ↔
      (positional types).Misfits (.positional values) reason := by
  have hscan : checkPositions 0 types values = .error reason ↔
      FirstDefect PositionDefect [] (types.zip values) reason :=
    @checkPositions_eq_error_iff reason [] types values
  rw [conform]
  by_cases hlen : types.length = values.length
  · rw [if_neg (not_not.mpr hlen), map_eq_error_iff, hscan]
    constructor
    · exact .position hlen
    · intro h
      cases h with
      | kind hkind => exact absurd rfl hkind
      | arity hne => exact absurd hlen hne
      | position _ hfirst => exact hfirst
  · rw [if_pos hlen]
    constructor
    · rintro ⟨⟩
      exact .arity hlen
    · intro h
      cases h with
      | kind hkind => exact absurd rfl hkind
      | arity _ => rfl
      | position heq _ => exact absurd heq hlen

/-- Fields by name are put into their slots, and only then are the slots looked through. -/
theorem conform_named_eq_error_iff (hnodup : (declared.map (·.name)).Nodup) :
    (named declared).conform (.named supplied) = .error reason ↔
      (named declared).Misfits (.named supplied) reason := by
  have hscan : ∀ reason, fillSlots declared (slotsFor declared []) supplied = .error reason ↔
      FirstDefect (EntryDefect declared) [] supplied reason :=
    fun _ => fillSlots_eq_error_iff hnodup
  rw [conform_named, bind_eq_error_iff, hscan]
  constructor
  · rintro (hfirst | ⟨slots, hfill, hvalues⟩)
    · exact .entry hfirst
    · obtain ⟨-, -, -, rfl⟩ := (fillSlots_eq_ok_iff hnodup).mp hfill
      obtain ⟨field, hmissing, rfl⟩ := slotValues_eq_error_iff.mp hvalues
      refine .missing (fun reason hfirst => ?_) hmissing
      rw [← hscan, hfill] at hfirst
      cases hfirst
  · intro h
    cases h with
    | kind hkind => exact absurd rfl hkind
    | entry hfirst => exact .inl hfirst
    | missing hsound hmissing =>
      -- a loop that stops at nothing fills the slots with what was supplied
      cases hfill : fillSlots declared (slotsFor declared []) supplied with
      | error e => exact absurd ((hscan e).mp hfill) (hsound e)
      | ok slots =>
        obtain ⟨-, -, -, rfl⟩ := (fillSlots_eq_ok_iff hnodup).mp hfill
        exact .inr ⟨_, rfl, slotValues_eq_error_iff.mpr ⟨_, hmissing, rfl⟩⟩

/-- A payload of another kind is rejected for that, whatever else is wrong with it. -/
theorem misfits_iff_of_kind_ne {s : Shape} {payload : Payload} (hkind : s.kind ≠ payload.kind) :
    s.Misfits payload reason ↔ reason = .wrongKind s.kind payload.kind := by
  constructor
  · intro h
    cases h with
    | kind _ => rfl
    | arity _ => exact absurd rfl hkind
    | position _ _ => exact absurd rfl hkind
    | entry _ => exact absurd rfl hkind
    | missing _ _ => exact absurd rfl hkind
  · rintro rfl
    exact .kind hkind

/-- The kind is compared before anything else. -/
theorem conform_of_kind_ne {s : Shape} {payload : Payload} (hkind : s.kind ≠ payload.kind) :
    s.conform payload = .error (.wrongKind s.kind payload.kind) := by
  cases s <;> cases payload <;> first | rfl | exact absurd rfl hkind

/-- What is reported of a payload. A case for each shape with the payload of its kind. -/
theorem conform_eq_error_iff {s : Shape} (hwf : s.WellFormed) {payload : Payload} :
    s.conform payload = .error reason ↔ s.Misfits payload reason := by
  by_cases hkind : s.kind = payload.kind
  · cases s with
    | unit =>
      cases payload with
      | unit =>
        simp only [conform, reduceCtorEq, false_iff]
        rintro ⟨⟩
        contradiction
      | positional values => cases hkind
      | named supplied => cases hkind
    | positional types =>
      cases payload with
      | positional values => exact conform_positional_eq_error_iff
      | unit => cases hkind
      | named supplied => cases hkind
    | named declared =>
      cases payload with
      | named supplied => exact conform_named_eq_error_iff hwf.2
      | unit => cases hkind
      | positional values => cases hkind
  · rw [conform_of_kind_ne hkind, misfits_iff_of_kind_ne hkind, Except.error.injEq, eq_comm]

end Shape

/-! ## Instances -/

/-- What is reported of a request for an instance: that the type has no such variant, or else what is wrong
with the payload for the variant declared under this name. -/
inductive EnumType.Rejects (t : EnumType) (variant : String) (payload : Payload) : ValueError → Prop
  | unknown (hunknown : variant ∉ t.variantNames) :
      t.Rejects variant payload (.unknownVariant t.name variant)
  | misfit {v : Variant} {reason : Misfit} (hv : v ∈ t.variants) (hname : v.name = variant)
      (hmisfits : v.shape.Misfits payload reason) :
      t.Rejects variant payload (.payloadMisfit t.name variant reason)

/-- What is reported of a request: an unknown name, or else what is wrong with the payload. -/
theorem construct_eq_error_iff {type : EnumType} (htype : type.WellFormed) {variant : String}
    {payload : Payload} {e : ValueError} :
    construct type variant payload = .error e ↔ type.Rejects variant payload e := by
  unfold construct
  cases hfound : type.variantNamed? variant with
  | none =>
    have hunknown := (EnumType.variantNamed?_eq_none_iff htype).mp hfound
    constructor
    · rintro ⟨⟩
      exact .unknown hunknown
    · intro h
      cases h with
      | unknown _ => rfl
      | misfit hv hname _ => exact absurd (hname ▸ List.mem_map_of_mem hv) hunknown
  | some found =>
    obtain ⟨tag, declared⟩ := found
    obtain ⟨rfl, hname⟩ := (EnumType.variantNamed?_eq_some_iff htype).mp hfound
    have hmem : type.variants.get tag ∈ type.variants := List.get_mem _ tag
    have hconform : ∀ reason, (type.variants.get tag).shape.conform payload = .error reason ↔
        (type.variants.get tag).shape.Misfits payload reason :=
      fun _ => Shape.conform_eq_error_iff (htype.variant _ hmem).shape
    dsimp only
    constructor
    · intro h
      cases hpayload : (type.variants.get tag).shape.conform payload with
      | ok stored =>
        rw [hpayload] at h
        cases h
      | error reason =>
        rw [hpayload] at h
        cases h
        exact .misfit hmem hname ((hconform reason).mp hpayload)
    · intro h
      cases h with
      | unknown hunknown => exact absurd (hname ▸ List.mem_map_of_mem hmem) hunknown
      | @misfit v reason hv hvname hmisfits =>
        -- only one variant has the name
        have hfind : ∀ u ∈ type.variants, type.variants.find? (·.name == u.name) = some u :=
          fun _ hu => find?_eq_some_of_nodup htype.names_nodup hu
        have hsame := hfind v hv
        rw [hvname, ← hname, hfind _ hmem] at hsame
        cases hsame
        rw [(hconform reason).mpr hmisfits]

namespace Registry

/-- A rejected payload is reported by its first defect (`Rejects`): that the type has no variant of this
name; or else that the payload is not of the kind of the variant; or else, by position, how many values
there are, or the first one that is not of the declared type; by name, the first field supplied that is
not declared, or not of the declared type, or supplied before; or else the first declared field that is
not supplied. -/
theorem Reachable.construct_reports_first_defect {r : Registry} (hr : r.Reachable) {type : EnumType}
    (ht : type ∈ r.types) (variant : String) (payload : Payload) :
    (∀ e, construct type variant payload = .error e ↔ type.Rejects variant payload e) ∧
    ∀ field declared found,
      (ValueError.payloadMisfit type.name variant (.wrongFieldType field declared found)).message
        = s!"payload does not fit `{type.name}::{variant}`: "
          ++ s!"field `{field}` expects `{declared.render}`, found `{found.render}`" := by
  have htype : type.WellFormed := hr.consistent.wellFormed type ht
  refine ⟨fun e => construct_eq_error_iff htype, ?_⟩
  intro field declared found
  rfl

/-- Of a move with a text for a number and a field supplied again, the text is reported, which comes first.
The field of a text has no name, and it is called by its position. -/
theorem Reachable.construct_reports_first_defect_message :
    message.Rejects "Move" (.named [("x", .int 1), ("y", .text "2"), ("x", .int 3)])
        (.payloadMisfit "Message" "Move" (.wrongFieldType "y" (.scalar .int) (.scalar .text))) ∧
      message.Rejects "Write" (.positional [.int 1])
        (.payloadMisfit "Message" "Write" (.wrongFieldType "0" (.scalar .text) (.scalar .int))) := by
  have hregistered : message ∈ onlyMessage.types := List.mem_singleton.mpr rfl
  obtain ⟨hmove, -⟩ := reachable_message.construct_reports_first_defect hregistered "Move"
    (.named [("x", .int 1), ("y", .text "2"), ("x", .int 3)])
  obtain ⟨hwrite, -⟩ := reachable_message.construct_reports_first_defect hregistered "Write"
    (.positional [.int 1])
  exact ⟨(hmove _).mp rfl, (hwrite _).mp rfl⟩

end Registry

end TaggedUnion
