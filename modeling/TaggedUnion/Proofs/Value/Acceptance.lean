import TaggedUnion.Proofs.Schema.Reachable
import TaggedUnion.Proofs.Value.Conform

/-!
# Which payloads are accepted

Making an instance scans the payload, and each scan stops at the first thing that is wrong. Together
the scans leave over exactly the payloads of the declared shape, and this shape can be said without
them.

* `FieldType.identity`: what comparing field types looks at. Names and declarations are no part of it.
* `Shape.Admits`: the payloads of a shape. Whether a payload is one of them can be decided.
* `Shape.exists_slotValues_iff`: a slot is left empty for a declared field that was not supplied, and for
  no other reason.
* `Shape.exists_conform_iff`: what the scans leave over.
* `Registry.Reachable.construct_succeeds_iff`: an instance is made of the payloads admitted by the
  variant that has the name, and of no others.
-/

namespace TaggedUnion

/-! ## Comparing types -/

/-- What tells a field type from others: which scalar it is, or the identity of the registered type. -/
def FieldType.identity : FieldType → Scalar ⊕ TypeId
  | .scalar s => .inl s
  | .enum t => .inr t.id

theorem FieldType.beq_iff_identity_eq {a b : FieldType} :
    (a == b) = true ↔ a.identity = b.identity := by
  cases a with
  | scalar s =>
    cases b with
    | scalar s' =>
      show (s == s') = true ↔ _
      simp [identity]
    | enum t => simp [identity, BEq.beq, instBEqFieldType.beq]
  | enum t =>
    cases b with
    | scalar s => simp [identity, BEq.beq, instBEqFieldType.beq]
    | enum t' =>
      show (t.id == t'.id) = true ↔ _
      simp [identity]

theorem Value.conformsTo_iff_identity_eq {x : Value} {type : FieldType} :
    x.conformsTo type = true ↔ x.type.identity = type.identity :=
  FieldType.beq_iff_identity_eq

namespace Shape

/-! ## Payloads of a shape -/

/-- The payloads of a shape: nothing for a unit; by position one value for each declared type, and of
this type; by name each declared field once and no other, each with a value of its declared type. -/
def Admits : Shape → Payload → Prop
  | .unit, .unit => True
  | .positional types, .positional values =>
    values.map (·.type.identity) = types.map (·.identity)
  | .named declared, .named supplied =>
    (supplied.map (·.1)).Perm (declared.map (·.name)) ∧
      ∀ entry ∈ supplied, ∀ field ∈ declared, field.name = entry.1 →
        entry.2.type.identity = field.type.identity
  | _, _ => False

instance (s : Shape) (payload : Payload) : Decidable (s.Admits payload) :=
  match s, payload with
  | .unit, .unit => isTrue trivial
  | .positional _, .positional _ => inferInstanceAs (Decidable (_ = _))
  | .named _, .named _ => inferInstanceAs (Decidable (_ ∧ _))
  | .unit, .positional _ | .unit, .named _ | .positional _, .unit | .positional _, .named _
  | .named _, .unit | .named _, .positional _ => isFalse id

variable {declared : List Field} {supplied : List (String × Value)} {types : List FieldType}
  {values : List Value}

theorem forall₂_conformsTo_iff :
    List.Forall₂ (fun (x : Value) type => x.conformsTo type = true) values types ↔
      values.map (·.type.identity) = types.map (·.identity) := by
  rw [← List.forall₂_eq_eq_eq, List.forall₂_map_left_iff, List.forall₂_map_right_iff]
  simp only [Value.conformsTo_iff_identity_eq]

/-! ## The scans together -/

/-- A slot is looked up for each declared field, and nothing else can be missing. -/
theorem exists_slotValues_iff :
    (∃ stored, slotValues declared (slotsFor declared supplied) = .ok stored) ↔
      ∀ field ∈ declared, field.name ∈ supplied.map (·.1) := by
  simp only [slotValues_eq_ok_iff]
  constructor
  · intro h field hfield
    obtain ⟨stored, hstored⟩ := h
    obtain ⟨i, hi, rfl⟩ := List.mem_iff_getElem.mp hfield
    have hi' : i < stored.length := hstored.length_eq ▸ hi
    exact List.mem_map_of_mem (f := Prod.fst) (mem_of_lookup_eq_some (hstored.get hi' hi))
  · intro h
    refine ⟨declared.map fun field => (supplied.lookup field.name).getD .unit, ?_⟩
    rw [List.forall₂_map_left_iff, List.forall₂_same]
    intro field hfield
    -- the default is never used, since the name stands among those supplied
    cases hlookup : supplied.lookup field.name with
    | some x => rfl
    | none => exact absurd (h field hfield) (lookup_eq_none_iff_not_mem.mp hlookup)

/-- Fields by name pass all scans exactly if they are the declared ones, with values of the declared
types. No name is supplied twice, every name supplied is declared, and every declared one is found:
that is a rearrangement. -/
theorem exists_conform_named_iff (hnodup : (declared.map (·.name)).Nodup) :
    (∃ stored, (named declared).conform (.named supplied) = .ok stored) ↔
      (named declared).Admits (.named supplied) := by
  simp only [conform_named_eq_ok_iff_lookup hnodup, exists_and_left, ← slotValues_eq_ok_iff]
  rw [exists_slotValues_iff]
  constructor
  · intro h
    obtain ⟨hentries, hsupplied, hfound⟩ := h
    refine ⟨?_, ?_⟩
    · rw [List.perm_ext_iff_of_nodup hsupplied hnodup]
      intro name
      refine ⟨fun hname => ?_, fun hname => ?_⟩
      · obtain ⟨entry, hentry, rfl⟩ := List.mem_map.mp hname
        obtain ⟨field, hfind, -⟩ := hentries entry hentry
        obtain ⟨hfield, hname⟩ := (find?_eq_some_iff_of_nodup hnodup).mp hfind
        rw [← hname]
        exact List.mem_map_of_mem hfield
      · obtain ⟨field, hfield, rfl⟩ := List.mem_map.mp hname
        exact hfound field hfield
    · intro entry hentry field hfield hname
      obtain ⟨found, hfind, hconforms⟩ := hentries entry hentry
      -- the scan has checked against the only field of this name
      rw [← hname, find?_eq_some_of_nodup hnodup hfield] at hfind
      cases hfind
      exact Value.conformsTo_iff_identity_eq.mp hconforms
  · intro h
    obtain ⟨hperm, htypes⟩ := h
    refine ⟨fun entry hentry => ?_, hperm.nodup_iff.mpr hnodup, fun field hfield => ?_⟩
    · obtain ⟨field, hfield, hname⟩ :=
        List.mem_map.mp (hperm.mem_iff.mp (List.mem_map_of_mem hentry))
      exact ⟨field, (find?_eq_some_iff_of_nodup hnodup).mpr ⟨hfield, hname⟩,
        Value.conformsTo_iff_identity_eq.mpr (htypes entry hentry field hfield hname)⟩
    · exact hperm.mem_iff.mpr (List.mem_map_of_mem hfield)

/-- Values by position pass if they are of the declared types, which includes that they are as many. -/
theorem exists_conform_positional_iff :
    (∃ stored, (positional types).conform (.positional values) = .ok stored) ↔
      (positional types).Admits (.positional values) := by
  show _ ↔ values.map (·.type.identity) = types.map (·.identity)
  rw [conform]
  by_cases hlen : types.length = values.length
  · have hcheck : checkPositions 0 types values = .ok () ↔ _ := checkPositions_eq_ok_iff hlen
    rw [if_neg (not_not.mpr hlen), ← forall₂_conformsTo_iff, ← hcheck]
    simp only [map_eq_ok_iff]
    constructor
    · intro h
      obtain ⟨_, _, hcheck, -⟩ := h
      exact hcheck
    · intro h
      exact ⟨values, (), h, rfl⟩
  · rw [if_pos hlen]
    have hne : values.map (·.type.identity) ≠ types.map (·.identity) := by
      intro heq
      apply hlen
      simpa using (congrArg List.length heq).symm
    simp [hne]

/-- A payload is stored exactly if it is of the shape. A case for each pair of a shape and a payload;
only the three of one kind leave anything to check. -/
theorem exists_conform_iff {s : Shape} (hwf : s.WellFormed) {payload : Payload} :
    (∃ stored, s.conform payload = .ok stored) ↔ s.Admits payload := by
  cases s with
  | unit => cases payload <;> simp [conform, Admits]
  | positional types =>
    cases payload with
    | positional values => exact exists_conform_positional_iff
    | unit => simp [conform, Admits]
    | named supplied => simp [conform, Admits]
  | named declared =>
    cases payload with
    | named supplied => exact exists_conform_named_iff hwf.2
    | unit => simp [conform, Admits]
    | positional values => simp [conform, Admits]

end Shape

namespace Registry

/-- For every registered type, every name and every payload, whatever the values in it: an instance is
made exactly if the type has a variant of this name and the payload is of the shape declared for it.
Types of fields are compared by their identities, so that a value of a type that only reads alike, or
has the same variants, is not accepted. -/
theorem Reachable.construct_succeeds_iff {r : Registry} (hr : r.Reachable) {type : EnumType}
    (ht : type ∈ r.types) (variant : String) (payload : Payload) :
    (∃ v, construct type variant payload = .ok v) ↔
      ∃ declared ∈ type.variants, declared.name = variant ∧ declared.shape.Admits payload := by
  have hwf : type.WellFormed := hr.consistent.wellFormed type ht
  constructor
  · intro h
    obtain ⟨v, hv⟩ := h
    obtain ⟨tag, stored, hname, hstored, -⟩ := (construct_eq_ok_iff hwf).mp hv
    have hmem : type.variants.get tag ∈ type.variants := List.get_mem _ tag
    refine ⟨_, hmem, hname, ?_⟩
    exact (Shape.exists_conform_iff (hwf.variant _ hmem).shape).mp ⟨stored, hstored⟩
  · intro h
    obtain ⟨declared, hdeclared, hname, hadmits⟩ := h
    obtain ⟨tag, rfl⟩ := List.mem_iff_get.mp hdeclared
    obtain ⟨stored, hstored⟩ :=
      (Shape.exists_conform_iff (hwf.variant _ hdeclared).shape).mpr hadmits
    exact ⟨_, (construct_eq_ok_iff hwf).mpr ⟨tag, stored, hname, hstored, rfl⟩⟩

/-- A move is made of its two fields in either order, and of nothing else: not with a field left out,
and not with a text for a number. -/
theorem Reachable.construct_succeeds_iff_message :
    (∃ v, construct message "Move" (.named [("y", .int 2), ("x", .int 1)]) = .ok v) ∧
      ¬ (∃ v, construct message "Move" (.named [("y", .int 2)]) = .ok v) ∧
      ¬ ∃ v, construct message "Move" (.named [("y", .int 2), ("x", .text "1")]) = .ok v := by
  have hregistered : message ∈ onlyMessage.types := List.mem_singleton.mpr rfl
  simp only [reachable_message.construct_succeeds_iff hregistered]
  decide

end Registry

end TaggedUnion
