import TaggedUnion.Proofs.Schema.WellFormed
import TaggedUnion.Value.Construct
import Mathlib.Data.List.Forall2

/-!
# Fitting a payload to a shape

What each of the checks on a payload accepts, and what is then stored.

* `checkPositions_eq_ok_iff`: the scan by position, by induction along it.
* `slotsFor`: the slots that supplied fields fill; `fillSlots_cons` is the step of the loop that fills
  them, and `fillSlots_eq_ok_iff` the whole loop: every value goes where its name is declared, and none
  is lost or put over another.
* `slotValues_eq_ok_iff`: what the filled slots hold is what was supplied under the declared names.
* `Shape.typed_of_conform`: the stored values have the declared types, in declared order, whatever
  the order in which fields were supplied.
* `Shape.mem_values_of_conform`: nothing is stored but what was supplied.
* `construct_eq_ok_iff`: an instance is its type, the tag of the name, and the stored values.
-/

namespace TaggedUnion

/-! ## The scans -/

theorem checkField_eq_ok_iff {field : String} {declared : FieldType} {value : Value} :
    checkField field declared value = .ok () ↔ value.conformsTo declared = true := by
  unfold checkField
  by_cases h : value.conformsTo declared = true
  · simp [h]
  · simp [h]

/-- As many values as types pass if each conforms to the type at its position. Induction along both. -/
theorem checkPositions_eq_ok_iff {position : Nat} {types : List FieldType} {values : List Value}
    (hlen : types.length = values.length) :
    checkPositions position types values = .ok () ↔
      List.Forall₂ (fun (v : Value) type => v.conformsTo type = true) values types := by
  induction types generalizing position values with
  | nil =>
    cases values with
    | nil => simp [checkPositions]
    | cons v vs => simp at hlen
  | cons type types ih =>
    cases values with
    | nil => simp at hlen
    | cons v vs =>
      have hlen' : types.length = vs.length := by simpa using hlen
      have hrest : checkPositions (position + 1) types vs = .ok () ↔
          List.Forall₂ (fun (v : Value) type => v.conformsTo type = true) vs types := ih hlen'
      rw [checkPositions, check_bind_eq_ok_iff, checkField_eq_ok_iff, List.forall₂_cons, ← hrest]

/-! ## Slots -/

/-- The slots after the given fields were put in: the one of a declared field holds what is found under
its name. -/
def slotsFor (declared : List Field) (supplied : List (String × Value)) : List (Option Value) :=
  declared.map fun field => supplied.lookup field.name

theorem slotsFor_nil (declared : List Field) :
    slotsFor declared [] = List.replicate declared.length none :=
  List.map_const'

section Slots

variable {declared : List Field} {supplied done : List (String × Value)} {name : String}
  {value : Value}

/-- To put a value into the slot of its field changes what is found under the name of this field, and
under no other declared name. -/
theorem set_slotsFor (hnodup : (declared.map (·.name)).Nodup) {position : Fin declared.length}
    (hname : (declared.get position).name = name) (hfree : done.lookup name = none) :
    (slotsFor declared done).set position (some value)
      = slotsFor declared (done ++ [(name, value)]) := by
  apply List.ext_getElem?
  intro i
  rw [List.getElem?_set]
  unfold slotsFor
  rw [List.getElem?_map, List.getElem?_map, List.length_map]
  by_cases hi : position.val = i
  · -- the slot of this field
    subst hi
    rw [if_pos rfl, if_pos position.isLt, List.getElem?_eq_getElem position.isLt, Option.map_some]
    show _ = some (List.lookup (declared.get position).name _)
    rw [hname, List.lookup_append, hfree, Option.none_or, List.lookup_cons_self]
  · rw [if_neg hi]
    cases hfield : declared[i]? with
    | none => rfl
    | some field =>
      -- another position has another name
      have hne : field.name ≠ name := by
        intro heq
        have hposition : declared[position.val]? = some (declared.get position) :=
          List.getElem?_eq_getElem position.isLt
        exact hi (index_eq_of_nodup hnodup hposition hfield (hname.trans heq.symm))
      rw [Option.map_some, Option.map_some, List.lookup_append, List.lookup_cons,
        beq_false_of_ne hne, List.lookup_nil, Option.or_none]

/-- The step of the loop, when the fields `done` have been put into their slots. The slot of a field is
filled already if its name is among them. -/
theorem fillSlots_cons (hnodup : (declared.map (·.name)).Nodup) :
    fillSlots declared (slotsFor declared done) ((name, value) :: supplied) =
      match declared.find? (·.name == name) with
      | none => .error (.unknownField name)
      | some field => checkField name field.type value >>= fun _ =>
        if name ∈ done.map (·.1) then .error (.duplicateField name)
        else fillSlots declared (slotsFor declared (done ++ [(name, value)])) supplied := by
  rw [fillSlots]
  cases hposition : declared.findFinIdx? (·.name == name) with
  | none =>
    have hnone : declared.find? (·.name == name) = none :=
      List.find?_eq_none.mpr (List.findFinIdx?_eq_none_iff.mp hposition)
    rw [hnone]
  | some position =>
    have hname : (declared.get position).name = name :=
      beq_iff_eq.mp (List.findFinIdx?_eq_some_iff.mp hposition).1
    have hfind : declared.find? (·.name == name) = some (declared.get position) := by
      rw [← hname]
      exact find?_eq_some_of_nodup hnodup (List.get_mem _ _)
    have hslot : (slotsFor declared done)[position.val]?.join = done.lookup name := by
      rw [slotsFor, List.getElem?_map, List.getElem?_eq_getElem position.isLt, ← hname]
      rfl
    rw [hfind]
    dsimp only
    rw [hslot]
    cases checkField name (declared.get position).type value with
    | error reason => rfl
    | ok _ =>
      -- the value conforms, so what is in its slot decides
      dsimp only [bind, Except.bind]
      cases hfilled : done.lookup name with
      | none =>
        rw [if_neg (lookup_eq_none_iff_not_mem.mp hfilled)]
        dsimp only
        rw [set_slotsFor hnodup hname hfilled]
      | some x =>
        have hmem : name ∈ done.map (·.1) :=
          List.mem_map_of_mem (f := Prod.fst) (mem_of_lookup_eq_some hfilled)
        rw [if_pos hmem]

/-- The loop accepts fields each of which is declared, conforms to the type declared under its name, and
is neither among those put in before nor supplied twice. In the end each slot holds what was supplied
under the name of its field. Induction on the fields supplied. -/
theorem fillSlots_eq_ok_iff (hnodup : (declared.map (·.name)).Nodup) {slots : List (Option Value)} :
    fillSlots declared (slotsFor declared done) supplied = .ok slots ↔
      (∀ entry ∈ supplied, ∃ field, declared.find? (·.name == entry.1) = some field ∧
        entry.2.conformsTo field.type = true) ∧
      (supplied.map (·.1)).Nodup ∧ (∀ entry ∈ supplied, entry.1 ∉ done.map (·.1)) ∧
      slots = slotsFor declared (done ++ supplied) := by
  induction supplied generalizing done with
  | nil => simp [fillSlots, @eq_comm _ slots]
  | cons entry rest ih =>
    obtain ⟨name, value⟩ := entry
    -- the step: the field is declared, of its type, and its slot is still empty
    have hstep : fillSlots declared (slotsFor declared done) ((name, value) :: rest) = .ok slots ↔
        (∃ field, declared.find? (·.name == name) = some field ∧
          value.conformsTo field.type = true) ∧
        name ∉ done.map (·.1) ∧
          fillSlots declared (slotsFor declared (done ++ [(name, value)])) rest = .ok slots := by
      rw [fillSlots_cons hnodup]
      cases hfind : declared.find? (·.name == name) with
      | none => simp
      | some field =>
        show checkField name field.type value >>= _ = .ok slots ↔ _
        rw [check_bind_eq_ok_iff, checkField_eq_ok_iff, ite_error_eq_ok_iff]
        simp only [Option.some.injEq, exists_eq_left']
    rw [hstep, ih]
    simp only [List.mem_cons, forall_eq_or_imp, List.map_cons, List.nodup_cons, List.map_append,
      List.map_nil, List.mem_append, List.not_mem_nil, or_false, not_or, List.append_assoc,
      List.singleton_append]
    constructor
    · rintro ⟨hfield, hfilled, hrest, hrepeat, hnew, hslots⟩
      refine ⟨⟨hfield, hrest⟩, ⟨?_, hrepeat⟩, ⟨hfilled, fun e he => (hnew e he).1⟩, hslots⟩
      intro hmem
      obtain ⟨entry, hentry, hname⟩ := List.mem_map.mp hmem
      exact (hnew entry hentry).2 hname
    · rintro ⟨⟨hfield, hrest⟩, ⟨hnew, hrepeat⟩, ⟨hfilled, hfilled'⟩, hslots⟩
      refine ⟨hfield, hfilled, hrest, hrepeat, fun e he => ⟨hfilled' e he, ?_⟩, hslots⟩
      rintro rfl
      exact hnew (List.mem_map_of_mem he)

/-- The step of the last scan: a slot is filled if something was supplied under the name of its field. -/
theorem slotValues_cons {field : Field} :
    slotValues (field :: declared) (slotsFor (field :: declared) supplied) =
      match supplied.lookup field.name with
      | none => .error (.missingField field.name)
      | some value => (value :: ·) <$> slotValues declared (slotsFor declared supplied) :=
  rfl

/-- The slots are all filled if something was supplied under each declared name, and this is what they
hold. Induction on the declared fields. -/
theorem slotValues_eq_ok_iff {values : List Value} :
    slotValues declared (slotsFor declared supplied) = .ok values ↔
      List.Forall₂ (fun v (field : Field) => supplied.lookup field.name = some v)
        values declared := by
  induction declared generalizing values with
  | nil =>
    rw [List.forall₂_nil_right_iff]
    constructor
    · rintro ⟨⟩
      rfl
    · rintro rfl
      rfl
  | cons field declared ih =>
    rw [slotValues_cons, List.forall₂_cons_right_iff]
    cases hlookup : supplied.lookup field.name with
    | none => simp
    | some value =>
      dsimp only
      rw [map_eq_ok_iff]
      constructor
      · rintro ⟨vs, hvs, rfl⟩
        exact ⟨value, vs, rfl, ih.mp hvs, rfl⟩
      · rintro ⟨_, vs, ⟨⟩, hvs, rfl⟩
        exact ⟨vs, ih.mpr hvs, rfl⟩

end Slots

/-! ## Conforming payloads -/

namespace Shape

/-- Fields by name are put into slots, and the slots are read in declared order. -/
theorem conform_named {declared : List Field} {supplied : List (String × Value)} :
    (named declared).conform (.named supplied)
      = (fillSlots declared (slotsFor declared []) supplied >>= slotValues declared) := by
  rw [slotsFor_nil]
  rfl

/-- Fields by name are stored as what is found among them under the declared names, if each of them is
declared, of its declared type and supplied once. -/
theorem conform_named_eq_ok_iff_lookup {declared : List Field} {supplied : List (String × Value)}
    (hnodup : (declared.map (·.name)).Nodup) {stored : List Value} :
    (named declared).conform (.named supplied) = .ok stored ↔
      (∀ entry ∈ supplied, ∃ field, declared.find? (·.name == entry.1) = some field ∧
        entry.2.conformsTo field.type = true) ∧
      (supplied.map (·.1)).Nodup ∧
      List.Forall₂ (fun v (field : Field) => supplied.lookup field.name = some v)
        stored declared := by
  rw [conform_named, bind_eq_ok_iff]
  constructor
  · rintro ⟨slots, hfill, hvalues⟩
    obtain ⟨hentries, hsupplied, -, rfl⟩ := (fillSlots_eq_ok_iff hnodup).mp hfill
    exact ⟨hentries, hsupplied, slotValues_eq_ok_iff.mp hvalues⟩
  · rintro ⟨hentries, hsupplied, hvalues⟩
    -- the loop starts with nothing put in, so no name is filled before
    exact ⟨slotsFor declared supplied,
      (fillSlots_eq_ok_iff hnodup).mpr ⟨hentries, hsupplied, by simp, rfl⟩,
      slotValues_eq_ok_iff.mpr hvalues⟩

/-- The three ways for a payload to fit: they pair each shape with the payload of its kind. -/
theorem conform_cases {shape : Shape} {payload : Payload} {stored : List Value}
    (h : shape.conform payload = .ok stored) :
    (shape = .unit ∧ payload = .unit ∧ stored = []) ∨
    (∃ types, shape = .positional types ∧ payload = .positional stored ∧
      types.length = stored.length ∧ checkPositions 0 types stored = .ok ()) ∨
    ∃ declared supplied, shape = .named declared ∧ payload = .named supplied := by
  cases shape with
  | unit =>
    cases payload with
    | unit =>
      cases h
      exact .inl ⟨rfl, rfl, rfl⟩
    | positional values => cases h
    | named supplied => cases h
  | positional types =>
    cases payload with
    | unit => cases h
    | positional values =>
      refine .inr (.inl ?_)
      rw [conform] at h
      by_cases hlen : types.length = values.length
      · rw [if_neg (not_not.mpr hlen), map_eq_ok_iff] at h
        obtain ⟨_, hcheck, rfl⟩ := h
        exact ⟨types, rfl, rfl, hlen, hcheck⟩
      · rw [if_pos hlen] at h
        cases h
    | named supplied => cases h
  | named declared =>
    cases payload with
    | unit => cases h
    | positional values => cases h
    | named supplied => exact .inr (.inr ⟨declared, supplied, rfl, rfl⟩)

/-- The stored values conform to the declared types, one by one and in declared order. -/
theorem typed_of_conform {shape : Shape} (hwf : shape.WellFormed) {payload : Payload}
    {stored : List Value} (h : shape.conform payload = .ok stored) :
    List.Forall₂ (fun (v : Value) type => v.conformsTo type = true) stored shape.fieldTypes := by
  rcases conform_cases h with ⟨rfl, -, rfl⟩ | ⟨types, rfl, -, hlen, hcheck⟩ |
    ⟨declared, supplied, rfl, rfl⟩
  · exact .nil
  · exact (checkPositions_eq_ok_iff hlen).mp hcheck
  · -- a stored value was supplied under its field's name, and was checked against that field
    obtain ⟨hentries, -, hlookup⟩ := (conform_named_eq_ok_iff_lookup hwf.2).mp h
    rw [fieldTypes, List.forall₂_map_right_iff]
    rw [List.forall₂_iff_zip] at hlookup ⊢
    refine ⟨hlookup.1, ?_⟩
    intro v field hmem
    have hfield : field ∈ declared := (List.of_mem_zip hmem).2
    obtain ⟨found, hfound, hconforms⟩ :=
      hentries _ (mem_of_lookup_eq_some (hlookup.2 hmem))
    rw [find?_eq_some_of_nodup hwf.2 hfield] at hfound
    cases hfound
    exact hconforms

/-- Nothing is stored but what was supplied. -/
theorem mem_values_of_conform {shape : Shape} (hwf : shape.WellFormed) {payload : Payload}
    {stored : List Value} (h : shape.conform payload = .ok stored) {v : Value} (hv : v ∈ stored) :
    v ∈ payload.values := by
  rcases conform_cases h with ⟨-, -, rfl⟩ | ⟨types, -, rfl, -, -⟩ | ⟨declared, supplied, rfl, rfl⟩
  · cases hv
  · exact hv
  · obtain ⟨-, -, hlookup⟩ := (conform_named_eq_ok_iff_lookup hwf.2).mp h
    obtain ⟨i, hi, rfl⟩ := List.mem_iff_getElem.mp hv
    have hi' : i < declared.length := hlookup.length_eq ▸ hi
    -- what stands in a slot was found among the fields supplied
    have hsupplied : supplied.lookup declared[i].name = some stored[i] := hlookup.get hi hi'
    exact List.mem_map_of_mem (f := Prod.snd) (mem_of_lookup_eq_some hsupplied)

end Shape

/-! ## Construction -/

/-- Once the variant is found, the payload alone decides. -/
theorem construct_of_variantNamed? {type : EnumType} {variant : String} {payload : Payload}
    {tag : Fin type.variants.length} {declared : Variant}
    (hfound : type.variantNamed? variant = some (tag, declared)) :
    construct type variant payload
      = ((declared.shape.conform payload).mapError (.payloadMisfit type.name variant)).map
          fun stored => ⟨type, tag, stored⟩ := by
  unfold construct
  rw [hfound]
  dsimp only
  cases declared.shape.conform payload <;> rfl

/-- An instance is made of the variant that the index leads to, whatever the index is. -/
theorem exists_of_construct {type : EnumType} {variant : String} {payload : Payload} {v : EnumValue}
    (h : construct type variant payload = .ok v) :
    ∃ tag declared stored, type.variantNamed? variant = some (tag, declared) ∧
      declared.shape.conform payload = .ok stored ∧ v = ⟨type, tag, stored⟩ := by
  cases hfound : type.variantNamed? variant with
  | none =>
    unfold construct at h
    rw [hfound] at h
    cases h
  | some found =>
    obtain ⟨tag, declared⟩ := found
    rw [construct_of_variantNamed? hfound] at h
    cases hconform : declared.shape.conform payload with
    | error reason =>
      rw [hconform] at h
      cases h
    | ok stored =>
      rw [hconform] at h
      cases h
      exact ⟨tag, declared, stored, rfl, hconform, rfl⟩

/-- An instance is its type, the tag of the named variant, and the values that its shape stores. -/
theorem construct_eq_ok_iff {type : EnumType} (htype : type.WellFormed) {variant : String}
    {payload : Payload} {v : EnumValue} :
    construct type variant payload = .ok v ↔
      ∃ tag stored, (type.variants.get tag).name = variant ∧
        (type.variants.get tag).shape.conform payload = .ok stored ∧ v = ⟨type, tag, stored⟩ := by
  constructor
  · intro h
    obtain ⟨tag, declared, stored, hfound, hconform, rfl⟩ := exists_of_construct h
    obtain ⟨rfl, hname⟩ := (EnumType.variantNamed?_eq_some_iff htype).mp hfound
    exact ⟨tag, stored, hname, hconform, rfl⟩
  · rintro ⟨tag, stored, hname, hconform, rfl⟩
    have hfound := (EnumType.variantNamed?_eq_some_iff htype).mpr ⟨rfl, hname⟩
    rw [construct_of_variantNamed? hfound, hconform]
    rfl

end TaggedUnion
