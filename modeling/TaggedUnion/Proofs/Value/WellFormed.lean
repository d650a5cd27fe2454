import TaggedUnion.Proofs.Schema.Reachable
import TaggedUnion.Proofs.Value.Conform

/-!
# Well-formed values

What it means for an instance to hold what its variant declares, at every depth, and that making and
taking apart instances keeps it so.

* `EnumValue.Within`: the instances that occur in an instance, at any depth.
* `EnumValue.WellFormed`: the type is registered, the stored fields have exactly the declared types,
  and each instance among them is well formed too.
* `construct_wellFormed`: an instance made of well-formed values is well formed.
* `EnumValue.WellFormed.payload_values`: reading the payload of a well-formed instance loses nothing.
* `EnumValue.extract_eq_ok_iff`, `EnumValue.extractFields_eq_ok_iff`: reading succeeds for the variant
  held and no other.
-/

namespace TaggedUnion

namespace EnumValue

/-- `u.Within v`: the instance `u` is `v` or occurs in a field of `v`, at any depth. -/
inductive Within (u : EnumValue) : EnumValue → Prop
  | self : Within u u
  | field {w v : EnumValue} (hfield : .enum w ∈ v.fields) (h : Within u w) : Within u v

/-- An instance over a registry holds what its variant declares: its type is registered, the types of
its fields are the declared ones in order, and each field that is an instance is well formed. -/
inductive WellFormed (r : Registry) : EnumValue → Prop
  | mk {v : EnumValue} (hregistered : v.type ∈ r.types)
      (htyped : v.fields.map (·.type) = v.variant.shape.fieldTypes)
      (hnested : ∀ u, .enum u ∈ v.fields → WellFormed r u) : WellFormed r v

namespace WellFormed

variable {r : Registry} {v : EnumValue}

theorem registered (h : v.WellFormed r) : v.type ∈ r.types := by
  cases h with
  | mk hregistered _ _ => exact hregistered

theorem typed (h : v.WellFormed r) : v.fields.map (·.type) = v.variant.shape.fieldTypes := by
  cases h with
  | mk _ htyped _ => exact htyped

theorem nested (h : v.WellFormed r) {u : EnumValue} (hu : .enum u ∈ v.fields) :
    u.WellFormed r := by
  cases h with
  | mk _ _ hnested => exact hnested u hu

/-- What occurs in a well-formed instance is well formed. Induction on the way down to it. -/
theorem within (h : v.WellFormed r) {u : EnumValue} (hu : u.Within v) : u.WellFormed r := by
  induction hu with
  | self => exact h
  | field hfield _ ih => exact ih (h.nested hfield)

/-- A value outlives the registry it was made over: registering more types does not disturb it. -/
theorem mono {r' : Registry} (hgrows : r.types <+: r'.types) (h : v.WellFormed r) :
    v.WellFormed r' := by
  induction h with
  | mk hregistered htyped _ ih => exact .mk (hgrows.subset hregistered) htyped ih

theorem length_fields (h : v.WellFormed r) : v.fields.length = v.variant.shape.arity := by
  have hlen := congrArg List.length h.typed
  rw [List.length_map] at hlen
  exact hlen

/-- The field at a position has the type declared for that position, and no position is left out. -/
theorem type_getElem? (h : v.WellFormed r) (i : Nat) :
    (v.fields[i]?).map (·.type) = v.variant.shape.fieldType? i := by
  rw [← List.getElem?_map, h.typed]
  rfl

/-- The payload lists the stored fields: pairing them with the declared names drops none. -/
theorem payload_values (h : v.WellFormed r) : v.payload.values = v.fields := by
  have hlen := h.length_fields
  unfold payload
  cases hshape : v.variant.shape with
  | unit =>
    rw [hshape] at hlen
    exact (List.eq_nil_of_length_eq_zero hlen).symm
  | positional types => rfl
  | named declared =>
    rw [hshape] at hlen
    have hlen' : v.fields.length = (declared.map (·.name)).length := by
      simpa [Shape.arity, Shape.fieldTypes] using hlen
    -- the payload is the pairing of declared names and stored fields, which are equally many
    have hzip : List.zipWith (fun f value => (f.name, value)) declared v.fields
        = (declared.map (·.name)).zip v.fields := by
      rw [List.zip, List.zipWith_map_left]
    show (List.zipWith (fun f value => (f.name, value)) declared v.fields).map Prod.snd = v.fields
    rw [hzip]
    exact List.map_snd_zip (Nat.le_of_eq hlen')

end WellFormed

end EnumValue

namespace Value

/-- A value is well formed if it is a scalar or a well-formed instance. -/
def WellFormed (r : Registry) (x : Value) : Prop :=
  ∀ v, x = .enum v → v.WellFormed r

theorem wellFormed_enum {r : Registry} {v : EnumValue} (h : v.WellFormed r) :
    (Value.enum v).WellFormed r := by
  intro u hu
  cases hu
  exact h

theorem WellFormed.knows {r : Registry} {x : Value} (h : x.WellFormed r) : r.Knows x.type := by
  cases x with
  | enum v => exact ⟨v.type, (h v rfl).registered, rfl⟩
  | _ => trivial

end Value

theorem EnumValue.WellFormed.value {r : Registry} {v : EnumValue} (h : v.WellFormed r) {x : Value}
    (hx : x ∈ v.fields) : x.WellFormed r := by
  intro u hu
  subst hu
  exact h.nested hx

/-- Making an instance of well-formed values gives a well-formed instance. -/
theorem construct_wellFormed {r : Registry} (hr : r.Consistent) {type : EnumType}
    (htype : type ∈ r.types) {variant : String} {payload : Payload}
    (hvalues : ∀ x ∈ payload.values, x.WellFormed r) {v : EnumValue}
    (h : construct type variant payload = .ok v) : v.WellFormed r := by
  have htypeWF := hr.wellFormed type htype
  obtain ⟨tag, stored, -, hconform, rfl⟩ := (construct_eq_ok_iff htypeWF).mp h
  have hmem : type.variants.get tag ∈ type.variants := List.get_mem _ _
  have hwf : (type.variants.get tag).shape.WellFormed := (htypeWF.variant _ hmem).shape
  -- conforming only moves values
  have hstored : ∀ x ∈ stored, x.WellFormed r :=
    fun x hx => hvalues x (Shape.mem_values_of_conform hwf hconform hx)
  refine .mk htype ?_ fun u hu => hstored _ hu u rfl
  show stored.map (·.type) = (type.variants.get tag).shape.fieldTypes
  -- the checks compare identities, which in a consistent registry makes the types the same
  have hconforms := Shape.typed_of_conform hwf hconform
  rw [List.forall₂_iff_zip] at hconforms
  have htypes : List.Forall₂ (fun (x : Value) declared => x.type = declared) stored
      (type.variants.get tag).shape.fieldTypes := by
    rw [List.forall₂_iff_zip]
    refine ⟨hconforms.1, ?_⟩
    intro x declared hzip
    have hx : x ∈ stored := (List.of_mem_zip hzip).1
    have hdeclared : declared ∈ (type.variants.get tag).shape.fieldTypes := (List.of_mem_zip hzip).2
    exact hr.eq_of_beq (hstored x hx).knows (hr.declares type htype _ hmem _ hdeclared)
      (hconforms.2 hzip)
  rw [← List.forall₂_map_left_iff (f := Value.type) (R := Eq), List.forall₂_eq_eq_eq] at htypes
  exact htypes

/-! ## Reading -/

namespace EnumValue

/-- The index leads from the name of the variant held to its tag. -/
theorem tag?_variantName {v : EnumValue} (h : v.type.WellFormed) :
    v.type.tag? v.variantName = some v.tag.val :=
  (EnumType.tag?_eq_some_iff h).mpr rfl

/-- Reading is allowed under the name of the variant held, and under no other. -/
theorem checkVariant_eq_ok_iff {v : EnumValue} (h : v.type.WellFormed) {variant : String} :
    v.checkVariant variant = .ok () ↔ v.variantName = variant := by
  unfold checkVariant
  cases htag : v.type.tag? variant with
  | none =>
    -- no variant has the name, so the one held does not
    have hne : v.variantName ≠ variant := by
      intro heq
      rw [← heq, tag?_variantName h] at htag
      cases htag
    simp [hne]
  | some n =>
    dsimp only
    by_cases heq : n = v.tag.val
    · subst heq
      rw [if_pos rfl]
      exact ⟨fun _ => (EnumType.tag?_eq_some_iff h).mp htag, fun _ => rfl⟩
    · rw [if_neg heq]
      have hne : v.variantName ≠ variant := by
        intro hvariant
        rw [← hvariant, tag?_variantName h] at htag
        exact heq (Option.some.inj htag).symm
      simp [hne]

/-- What is read after the check is read under the name of the variant held, and under no other. -/
theorem map_checkVariant_eq_ok_iff {v : EnumValue} (h : v.type.WellFormed) {variant : String}
    {α : Type} {read : Unit → α} {a : α} :
    read <$> v.checkVariant variant = .ok a ↔ v.variantName = variant ∧ a = read () := by
  rw [map_eq_ok_iff, ← checkVariant_eq_ok_iff h]
  constructor
  · intro hread
    obtain ⟨_, hcheck, rfl⟩ := hread
    exact ⟨hcheck, rfl⟩
  · intro hread
    exact ⟨(), hread.1, hread.2.symm⟩

theorem extractFields_eq_ok_iff {v : EnumValue} (h : v.type.WellFormed) {variant : String}
    {stored : List Value} :
    v.extractFields variant = .ok stored ↔ v.variantName = variant ∧ stored = v.fields :=
  map_checkVariant_eq_ok_iff h

theorem extract_eq_ok_iff {v : EnumValue} (h : v.type.WellFormed) {variant : String}
    {payload : Payload} :
    v.extract variant = .ok payload ↔ v.variantName = variant ∧ payload = v.payload :=
  map_checkVariant_eq_ok_iff h

end EnumValue

end TaggedUnion
