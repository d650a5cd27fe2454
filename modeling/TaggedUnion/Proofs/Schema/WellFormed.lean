import TaggedUnion.Schema.Registry
import Mathlib.Data.List.Nodup

/-!
# Well-formed declarations

What a declaration has to satisfy to be registered, said without the code that checks it, and the
look-up by name that it makes unambiguous.

* `Shape.WellFormed`, `Variant.WellFormed`, `EnumType.WellFormed`: names are there and distinct, and
  a variant that is not a unit has fields.
* `indexVariants_eq_ok_iff`: the scan accepts exactly the well-formed lists of variants, and gives each
  name its place as its tag.
* `EnumType.tag?_eq_some_iff`, `Shape.fieldIndex?_eq_some_iff`: a look-up by name finds a place exactly
  when the name stands there.
* `EnumType.Indexed`: all look-ups of a type find its parts where they stand, and there are some.
* `Registry.insert_eq_ok_iff`, `Registry.insert_eq_error_iff_vet`: everything that a registration can do
  to a registry.
-/

namespace TaggedUnion

/-! ## Checks in a row -/

section Checks

variable {ε α β : Type}

theorem bind_eq_ok_iff {x : Except ε α} {f : α → Except ε β} {b : β} :
    x >>= f = .ok b ↔ ∃ a, x = .ok a ∧ f a = .ok b := by
  cases x with
  | error e =>
    constructor
    · intro h
      cases h
    · rintro ⟨a, ha, -⟩
      cases ha
  | ok a =>
    constructor
    · intro h
      exact ⟨a, rfl, h⟩
    · rintro ⟨a', ha, h⟩
      cases ha
      exact h

theorem bind_eq_error_iff {x : Except ε α} {f : α → Except ε β} {e : ε} :
    x >>= f = .error e ↔ x = .error e ∨ ∃ a, x = .ok a ∧ f a = .error e := by
  cases x with
  | error e' =>
    show Except.error e' = .error e ↔ _
    simp
  | ok a =>
    show f a = .error e ↔ _
    simp

theorem map_eq_ok_iff {x : Except ε α} {f : α → β} {b : β} :
    f <$> x = .ok b ↔ ∃ a, x = .ok a ∧ f a = b := by
  cases x with
  | error e => simp [Functor.map, Except.map]
  | ok a => simp [Functor.map, Except.map]

theorem map_eq_error_iff {x : Except ε α} {f : α → β} {e : ε} :
    f <$> x = .error e ↔ x = .error e := by
  cases x <;> simp [Functor.map, Except.map]

/-- A check that has no result only lets what follows it go on. -/
theorem check_bind_eq_ok_iff {x : Except ε Unit} {f : Unit → Except ε β} {b : β} :
    x >>= f = .ok b ↔ x = .ok () ∧ f () = .ok b := by
  rw [bind_eq_ok_iff]
  constructor
  · rintro ⟨⟨⟩, hx, hf⟩
    exact ⟨hx, hf⟩
  · rintro ⟨hx, hf⟩
    exact ⟨(), hx, hf⟩

/-- A check that fails on a condition passes if the condition does not hold. -/
theorem ite_error_eq_ok_iff {c : Prop} [Decidable c] {e : ε} {x : Except ε α} {a : α} :
    (if c then .error e else x) = .ok a ↔ ¬ c ∧ x = .ok a := by
  by_cases hc : c
  · simp [hc]
  · simp [hc]

end Checks

/-! ## Shapes and variants -/

/-- A variant with fields has at least one, and fields that have names have distinct ones. -/
def Shape.WellFormed : Shape → Prop
  | .unit => True
  | .positional types => types ≠ []
  | .named fields => fields ≠ [] ∧ (fields.map (·.name)).Nodup

/-- A variant has a name and a well-formed shape. -/
structure Variant.WellFormed (v : Variant) : Prop where
  name_ne_empty : v.name ≠ ""
  shape : v.shape.WellFormed

theorem Variant.check_eq_ok_iff {type : String} {v : Variant} :
    v.check type = .ok () ↔ v.WellFormed := by
  have hsplit : v.WellFormed ↔ v.name ≠ "" ∧ v.shape.WellFormed :=
    ⟨fun h => ⟨h.name_ne_empty, h.shape⟩, fun h => ⟨h.1, h.2⟩⟩
  rw [hsplit]
  unfold Variant.check
  by_cases hname : v.name = ""
  · simp [hname]
  · rw [if_neg hname]
    cases hshape : v.shape with
    | unit => simp [Shape.WellFormed, hname]
    | positional types => cases types <;> simp [Shape.WellFormed, hname]
    | named fields =>
      cases fields with
      | nil => simp [Shape.WellFormed]
      | cons f fs =>
        -- the scan for a repeated name is the only check left
        have hscan : (Shape.named (f :: fs)).WellFormed ↔
            Text.firstRepeat? ((f :: fs).map (·.name)) = none := by
          rw [Text.firstRepeat?_eq_none_iff]
          exact and_iff_right (List.cons_ne_nil f fs)
        rw [hscan]
        dsimp only
        cases Text.firstRepeat? ((f :: fs).map (·.name)) <;> simp [hname]

/-- The scan accepts variants that are well formed, under distinct names that the index does not have yet,
and it gives them the next tags in their order. Induction on the list; the index grows with it. -/
theorem indexVariants_eq_ok_iff {type : String} {index index' : Dict String Nat} {tag : Nat}
    {vs : List Variant} :
    indexVariants type index tag vs = .ok index' ↔
      (∀ v ∈ vs, v.WellFormed) ∧ (vs.map (·.name)).Nodup ∧
        (∀ v ∈ vs, index.get? v.name = none) ∧
        index' = ⟨index.entries ++ (vs.map (·.name)).zipIdx tag⟩ := by
  induction vs generalizing index tag with
  | nil => simp [indexVariants, eq_comm]
  | cons v vs ih =>
    -- one round of the loop: a check, a look-up and an insertion
    have hstep : indexVariants type index tag (v :: vs) = .ok index' ↔
        v.WellFormed ∧ index.get? v.name = none ∧
          indexVariants type (index.insert v.name tag) (tag + 1) vs = .ok index' := by
      rw [indexVariants, check_bind_eq_ok_iff, ite_error_eq_ok_iff, Variant.check_eq_ok_iff,
        Bool.not_eq_true, Dict.contains_eq_false_iff]
    -- what is new to the grown index was new before and is not this name
    have hnext : ∀ w : Variant, index.get? v.name = none →
        ((index.insert v.name tag).get? w.name = none ↔
          w.name ≠ v.name ∧ index.get? w.name = none) := by
      intro w hnew
      rw [Dict.get?_insert]
      by_cases hname : w.name = v.name
      · simp [hname]
      · simp [hname, Ne.symm hname]
    rw [hstep]
    constructor
    · rintro ⟨hwf, hnew, hrest⟩
      obtain ⟨hwfs, hnodup, hnames, rfl⟩ := ih.mp hrest
      refine ⟨List.forall_mem_cons.mpr ⟨hwf, hwfs⟩, ?_, ?_, ?_⟩
      · rw [List.map_cons, List.nodup_cons, List.mem_map]
        refine ⟨?_, hnodup⟩
        rintro ⟨w, hw, hname⟩
        exact ((hnext w hnew).mp (hnames w hw)).1 hname
      · exact List.forall_mem_cons.mpr ⟨hnew, fun w hw => ((hnext w hnew).mp (hnames w hw)).2⟩
      · rw [Dict.entries_insert hnew, List.append_assoc]
        rfl
    · rintro ⟨hwf, hnodup, hnames, rfl⟩
      obtain ⟨hwf, hrest⟩ := List.forall_mem_cons.mp hwf
      obtain ⟨hnew, hnames⟩ := List.forall_mem_cons.mp hnames
      rw [List.map_cons, List.nodup_cons] at hnodup
      refine ⟨hwf, hnew, ih.mpr ⟨hrest, hnodup.2, ?_, ?_⟩⟩
      · intro w hw
        refine (hnext w hnew).mpr ⟨?_, hnames w hw⟩
        intro hname
        exact hnodup.1 (hname ▸ List.mem_map_of_mem hw)
      · rw [Dict.entries_insert hnew, List.append_assoc]
        rfl

/-! ## Types -/

/-- A type has variants, each of them well formed, under distinct names, and its index leads from each
name to the place where it stands. -/
structure EnumType.WellFormed (t : EnumType) : Prop where
  variants_ne_nil : t.variants ≠ []
  variant : ∀ v ∈ t.variants, v.WellFormed
  names_nodup : t.variantNames.Nodup
  tag?_iff : ∀ (name : String) (tag : Nat), t.tag? name = some tag ↔ t.variantNames[tag]? = some name

@[simp] theorem EnumType.length_variantNames (t : EnumType) :
    t.variantNames.length = t.variants.length := by
  simp [variantNames]

/-- Among distinct names, one name stands at one place. -/
theorem index_eq_of_nodup {α : Type} {name : α → String} {xs : List α} (h : (xs.map name).Nodup)
    {i j : Nat} {x y : α} (hi : xs[i]? = some x) (hj : xs[j]? = some y) (hname : name x = name y) :
    i = j := by
  obtain ⟨hlt, -⟩ := List.getElem?_eq_some_iff.mp hi
  have hlt' : i < (xs.map name).length := by
    rw [List.length_map]
    exact hlt
  refine (List.getElem?_inj hlt' h).mp ?_
  rw [List.getElem?_map, List.getElem?_map, hi, hj, Option.map_some, Option.map_some, hname]

/-- A position in a list of distinct names is the first at which its name stands. -/
theorem findIdx?_eq_some_iff_of_nodup {α : Type} {name : α → String} {xs : List α} {n : String}
    {i : Nat} (h : (xs.map name).Nodup) :
    xs.findIdx? (name · == n) = some i ↔ (xs[i]?).map name = some n := by
  rw [List.findIdx?_eq_some_iff_getElem]
  constructor
  · intro hfirst
    obtain ⟨hi, hname, -⟩ := hfirst
    rw [List.getElem?_eq_getElem hi, Option.map_some, beq_iff_eq.mp hname]
  · intro hname
    obtain ⟨x, hx, rfl⟩ := Option.map_eq_some_iff.mp hname
    obtain ⟨hi, rfl⟩ := List.getElem?_eq_some_iff.mp hx
    refine ⟨hi, beq_self_eq_true _, ?_⟩
    -- an earlier place with the name would be this place
    intro j hji hj
    have hj' : xs[j]? = some xs[j] := List.getElem?_eq_getElem (Nat.lt_trans hji hi)
    have hij := index_eq_of_nodup h hj' hx (beq_iff_eq.mp hj)
    omega

/-- Among distinct names, a search for the name of an element finds that element. -/
theorem find?_eq_some_of_nodup {α : Type} {name : α → String} {xs : List α}
    (h : (xs.map name).Nodup) {x : α} (hx : x ∈ xs) : xs.find? (name · == name x) = some x := by
  induction xs with
  | nil => cases hx
  | cons y ys ih =>
    rw [List.map_cons, List.nodup_cons] at h
    rcases List.mem_cons.mp hx with rfl | hx
    · simp
    · have hne : name y ≠ name x := by
        intro heq
        exact h.1 (heq ▸ List.mem_map_of_mem hx)
      rw [List.find?_cons_of_neg (by simpa using hne)]
      exact ih h.2 hx

/-- Among distinct names, a search by name finds the element that has the name. -/
theorem find?_eq_some_iff_of_nodup {α : Type} {name : α → String} {xs : List α} {n : String} {x : α}
    (h : (xs.map name).Nodup) : xs.find? (name · == n) = some x ↔ x ∈ xs ∧ name x = n := by
  constructor
  · intro hfind
    have hname := List.find?_some hfind
    exact ⟨List.mem_of_find?_eq_some hfind, beq_iff_eq.mp hname⟩
  · rintro ⟨hx, rfl⟩
    exact find?_eq_some_of_nodup h hx

namespace EnumType

variable {t : EnumType} {name : String}

/-- The index gives a tag for the name of the variant at that tag. -/
theorem tag?_eq_some_iff (h : t.WellFormed) {tag : Fin t.variants.length} :
    t.tag? name = some tag.val ↔ (t.variants.get tag).name = name := by
  rw [h.tag?_iff, variantNames, List.getElem?_map, List.getElem?_eq_getElem tag.isLt,
    Option.map_some, Option.some.injEq]
  rfl

/-- Variants of one name are one variant. -/
theorem tag_eq_of_name_eq (h : t.WellFormed) {tag tag' : Fin t.variants.length}
    (hname : (t.variants.get tag).name = (t.variants.get tag').name) : tag = tag' := by
  -- the index has one tag for the name
  have htag : t.tag? (t.variants.get tag').name = some tag.val := (tag?_eq_some_iff h).mpr hname
  rw [(tag?_eq_some_iff h).mpr rfl] at htag
  exact Fin.ext (Option.some.inj htag).symm

/-- What the index gives is a tag of the type. -/
theorem exists_tag_of_tag? (h : t.WellFormed) {n : Nat} (htag : t.tag? name = some n) :
    ∃ tag : Fin t.variants.length, n = tag.val ∧ (t.variants.get tag).name = name := by
  obtain ⟨hlt, -⟩ := List.getElem?_eq_some_iff.mp ((h.tag?_iff name n).mp htag)
  rw [length_variantNames] at hlt
  have htag' : t.tag? name = some (⟨n, hlt⟩ : Fin t.variants.length).val := htag
  exact ⟨⟨n, hlt⟩, rfl, (tag?_eq_some_iff h).mp htag'⟩

/-- A name that has no tag is the name of no variant: the index leaves none out. -/
theorem tag?_eq_none_iff (h : t.WellFormed) : t.tag? name = none ↔ name ∉ t.variantNames := by
  constructor
  · intro hnone hmem
    obtain ⟨tag, htag⟩ := List.mem_iff_getElem?.mp hmem
    rw [(h.tag?_iff name tag).mpr htag] at hnone
    cases hnone
  · intro hmem
    cases htag : t.tag? name with
    | none => rfl
    | some tag => exact absurd (List.mem_of_getElem? ((h.tag?_iff name tag).mp htag)) hmem

/-- A name leads to the variant that has it, together with the tag of that variant. -/
theorem variantNamed?_eq_some_iff (h : t.WellFormed) {tag : Fin t.variants.length} {v : Variant} :
    t.variantNamed? name = some (tag, v) ↔ v = t.variants.get tag ∧ v.name = name := by
  unfold variantNamed?
  constructor
  · intro hfound
    obtain ⟨n, hn, hfound⟩ := Option.bind_eq_some_iff.mp hfound
    obtain ⟨tag', rfl, hname⟩ := exists_tag_of_tag? h hn
    rw [dif_pos tag'.isLt] at hfound
    cases hfound
    exact ⟨rfl, hname⟩
  · rintro ⟨rfl, hname⟩
    rw [(tag?_eq_some_iff h).mpr hname, Option.bind_some, dif_pos tag.isLt]
    rfl

theorem variantNamed?_eq_none_iff (h : t.WellFormed) :
    t.variantNamed? name = none ↔ name ∉ t.variantNames := by
  rw [← tag?_eq_none_iff h]
  unfold variantNamed?
  cases htag : t.tag? name with
  | none => simp
  | some n =>
    -- what the index gives is in range, so the variant is found
    obtain ⟨tag, rfl, -⟩ := exists_tag_of_tag? h htag
    simp

theorem exists_variantNamed? (h : t.WellFormed) (hname : name ∈ t.variantNames) :
    ∃ tag v, t.variantNamed? name = some (tag, v) := by
  cases hnamed : t.variantNamed? name with
  | none => exact absurd hname ((variantNamed?_eq_none_iff h).mp hnamed)
  | some found => exact ⟨found.1, found.2, rfl⟩

end EnumType

/-- Where field names are distinct, a look-up gives the place at which the name stands. -/
theorem Shape.fieldIndex?_eq_some_iff {fields : List Field} (h : (fields.map (·.name)).Nodup)
    {name : String} {i : Nat} :
    (Shape.named fields).fieldIndex? name = some i ↔ (fields[i]?).map (·.name) = some name :=
  findIdx?_eq_some_iff_of_nodup h

/-- The parts of a type are found where they stand: by its name a variant with its tag, and in a
variant with named fields the position of a field. Neither a type nor a variant with fields is
empty. -/
structure EnumType.Indexed (t : EnumType) : Prop where
  variants_pos : 0 < t.variantCount
  arity_pos : ∀ v ∈ t.variants, v.shape ≠ .unit → 0 < v.shape.arity
  tag : ∀ (name : String) (i : Nat), t.tag? name = some i ↔ (t.variant? i).map (·.name) = some name
  variantNamed : ∀ (name : String) (i : Nat) (v : Variant),
    (t.variantNamed? name).map (fun (tag, v) => (tag.val, v)) = some (i, v) ↔
      t.variant? i = some v ∧ v.name = name
  fieldIndex : ∀ v ∈ t.variants, ∀ fields, v.shape = .named fields → ∀ (name : String) (i : Nat),
    v.shape.fieldIndex? name = some i ↔ (fields[i]?).map (·.name) = some name

theorem Shape.WellFormed.arity_pos {s : Shape} (h : s.WellFormed) (hne : s ≠ .unit) :
    0 < s.arity := by
  cases s with
  | unit => exact absurd rfl hne
  | positional types => exact List.length_pos_of_ne_nil h
  | named fields =>
    apply List.length_pos_of_ne_nil
    show fields.map (·.type) ≠ []
    rw [Ne, List.map_eq_nil_iff]
    exact h.1

/-- All that the look-ups need of a declaration is that it is well formed. -/
theorem EnumType.WellFormed.indexed {t : EnumType} (h : t.WellFormed) : t.Indexed where
  variants_pos := List.length_pos_of_ne_nil h.variants_ne_nil
  arity_pos := fun v hv hne => (h.variant v hv).shape.arity_pos hne
  tag := by
    intro name i
    rw [h.tag?_iff, variantNames, List.getElem?_map]
    rfl
  variantNamed := by
    intro name i v
    rw [Option.map_eq_some_iff]
    constructor
    · rintro ⟨⟨tag, v'⟩, hfound, heq⟩
      cases heq
      obtain ⟨rfl, hname⟩ := (variantNamed?_eq_some_iff h).mp hfound
      exact ⟨List.getElem?_eq_getElem tag.isLt, hname⟩
    · rintro ⟨hv, hname⟩
      obtain ⟨hi, rfl⟩ := List.getElem?_eq_some_iff.mp hv
      refine ⟨(⟨i, hi⟩, t.variants.get ⟨i, hi⟩), ?_, rfl⟩
      exact (variantNamed?_eq_some_iff h).mpr ⟨rfl, hname⟩
  fieldIndex := by
    intro v hv fields hshape name i
    have hwf := (h.variant v hv).shape
    rw [hshape] at hwf ⊢
    exact Shape.fieldIndex?_eq_some_iff hwf.2

/-! ## Registration -/

/-- The type that a registration makes: its index gives each name its place. -/
def EnumType.declared (id : TypeId) (name : String) (vs : List Variant) : EnumType :=
  ⟨id, name, vs, ⟨(vs.map (·.name)).zipIdx⟩⟩

/-- The index of a new type is right as soon as names are distinct. -/
theorem EnumType.declared_wellFormed_iff {id : TypeId} {name : String} {vs : List Variant} :
    (declared id name vs).WellFormed ↔
      vs ≠ [] ∧ (∀ v ∈ vs, v.WellFormed) ∧ (vs.map (·.name)).Nodup := by
  refine ⟨fun h => ⟨h.variants_ne_nil, h.variant, h.names_nodup⟩, ?_⟩
  rintro ⟨hne, hvs, hnodup⟩
  refine ⟨hne, hvs, hnodup, fun n tag => ?_⟩
  have hkeys : ((vs.map (·.name)).zipIdx.map (·.1)).Nodup := by
    rw [List.zipIdx_map_fst]
    exact hnodup
  show ((vs.map (·.name)).zipIdx).lookup n = some tag ↔ (vs.map (·.name))[tag]? = some n
  rw [lookup_eq_some_iff_mem hkeys, List.mk_mem_zipIdx_iff_getElem?]

namespace Registry

variable {r r' : Registry} {name : String} {vs : List Variant} {t : EnumType} {e : RegistryError}

/-- What is checked before a type is added, and the index that comes of it. -/
def vet (r : Registry) (name : String) (vs : List Variant) :
    Except RegistryError (Dict String Nat) :=
  if vs.isEmpty then .error (.noVariants name)
  else do
    let index ← indexVariants name {} 0 vs
    if r.byName.contains name then .error (.duplicateTypeName name) else .ok index

/-- The registry is written only when all checks have passed, and then both the counter and the table
are. -/
theorem insert_eq_vet (r : Registry) (name : String) (vs : List Variant) :
    r.insert name vs =
      match r.vet name vs with
      | .error e => (.error e, r)
      | .ok index =>
        let type : EnumType := ⟨⟨r.nextId⟩, name, vs, index⟩
        (.ok type, ⟨r.byName.insert name type, r.nextId + 1⟩) := by
  unfold insert vet
  by_cases hempty : vs.isEmpty = true
  · rw [if_pos hempty, if_pos hempty]
  · rw [if_neg hempty, if_neg hempty]
    cases indexVariants name {} 0 vs with
    | error e => rfl
    | ok index =>
      cases hused : r.byName.contains name <;> rfl

/-- The checks accept well-formed types under free names. -/
theorem vet_eq_ok_iff {index : Dict String Nat} :
    r.vet name vs = .ok index ↔
      (EnumType.declared ⟨r.nextId⟩ name vs).WellFormed ∧ r.lookup? name = none ∧
        index = ⟨(vs.map (·.name)).zipIdx⟩ := by
  rw [EnumType.declared_wellFormed_iff, lookup?, ← Dict.contains_eq_false_iff]
  unfold vet
  by_cases hempty : vs = []
  · simp [hempty]
  · rw [if_neg (by simpa using hempty), bind_eq_ok_iff]
    constructor
    · rintro ⟨index', hindex, hrest⟩
      obtain ⟨hvs, hnodup, -, rfl⟩ := indexVariants_eq_ok_iff.mp hindex
      obtain ⟨hused, ⟨⟩⟩ := ite_error_eq_ok_iff.mp hrest
      exact ⟨⟨hempty, hvs, hnodup⟩, Bool.eq_false_iff.mpr hused, rfl⟩
    · rintro ⟨⟨-, hvs, hnodup⟩, hfree, rfl⟩
      refine ⟨_, indexVariants_eq_ok_iff.mpr ⟨hvs, hnodup, fun _ _ => rfl, rfl⟩, ?_⟩
      rw [hfree]
      rfl

/-- Everything that adding a type can do: the variants are well formed under distinct names, the name is
free, and the type is entered under its name with the next identity. -/
theorem insert_eq_ok_iff :
    r.insert name vs = (.ok t, r') ↔
      t.WellFormed ∧ r.lookup? name = none ∧ t = .declared ⟨r.nextId⟩ name vs ∧
        r' = ⟨r.byName.insert name t, r.nextId + 1⟩ := by
  rw [insert_eq_vet]
  cases hvet : r.vet name vs with
  | error e =>
    refine iff_of_false (by simp) ?_
    rintro ⟨hwf, hfree, rfl, -⟩
    rw [vet_eq_ok_iff.mpr ⟨hwf, hfree, rfl⟩] at hvet
    cases hvet
  | ok index =>
    obtain ⟨hwf, hfree, rfl⟩ := vet_eq_ok_iff.mp hvet
    constructor
    · intro h
      cases h
      exact ⟨hwf, hfree, rfl, rfl⟩
    · rintro ⟨-, -, rfl, rfl⟩
      rfl

/-- A type that is not added leaves the registry as it was. -/
theorem insert_eq_error_iff_vet :
    r.insert name vs = (.error e, r') ↔ r.vet name vs = .error e ∧ r' = r := by
  rw [insert_eq_vet]
  cases r.vet name vs with
  | error e' => simp [eq_comm]
  | ok index => simp

theorem insert_fst_eq_error_iff : (r.insert name vs).1 = .error e ↔ r.vet name vs = .error e := by
  constructor
  · intro h
    exact (insert_eq_error_iff_vet.mp (Prod.ext h rfl)).1
  · intro h
    rw [insert_eq_error_iff_vet.mpr ⟨h, rfl⟩]

/-- All that can keep out a well-formed type is its name. -/
theorem insert_eq_duplicateTypeName (hwf : (EnumType.declared ⟨r.nextId⟩ name vs).WellFormed)
    (hlookup : r.lookup? name = some t) :
    r.insert name vs = (.error (.duplicateTypeName name), r) := by
  have hcheck : indexVariants name {} 0 vs = .ok ⟨(vs.map (·.name)).zipIdx⟩ :=
    indexVariants_eq_ok_iff.mpr ⟨hwf.variant, hwf.names_nodup, fun _ _ => rfl, rfl⟩
  have hused : r.byName.contains name = true := Dict.contains_iff.mpr ⟨t, hlookup⟩
  have hsome : ¬ vs.isEmpty = true := mt List.isEmpty_iff.mp hwf.variants_ne_nil
  refine insert_eq_error_iff_vet.mpr ⟨?_, rfl⟩
  -- of the three checks only the last one fails
  unfold vet
  rw [if_neg hsome, hcheck]
  dsimp only [bind, Except.bind]
  rw [if_pos hused]

end Registry

/-- No fault of a variant is reported as a type name in use. -/
theorem Variant.check_ne_duplicateTypeName {type name : String} {v : Variant} :
    v.check type ≠ .error (.duplicateTypeName name) := by
  unfold Variant.check
  by_cases hname : v.name = ""
  · simp [hname]
  · rw [if_neg hname]
    cases v.shape with
    | unit => simp
    | positional types => cases types <;> simp
    | named fields =>
      cases fields with
      | nil => simp
      | cons f fs =>
        dsimp only
        cases Text.firstRepeat? ((f :: fs).map (·.name)) <;> simp

theorem indexVariants_ne_duplicateTypeName {type name : String} {index : Dict String Nat} {tag : Nat}
    {vs : List Variant} : indexVariants type index tag vs ≠ .error (.duplicateTypeName name) := by
  induction vs generalizing index tag with
  | nil => simp [indexVariants]
  | cons v vs ih =>
    rw [indexVariants, Ne, bind_eq_error_iff]
    rintro (hcheck | ⟨_, -, hrest⟩)
    · exact Variant.check_ne_duplicateTypeName hcheck
    · by_cases hseen : index.contains v.name = true
      · rw [if_pos hseen] at hrest
        cases hrest
      · rw [if_neg hseen] at hrest
        exact ih hrest

/-- A name is reported to be in use when it is, and nothing else is wrong with the type. -/
theorem Registry.insert_eq_duplicateTypeName_iff {r : Registry} {name name' : String}
    {vs : List Variant} :
    (r.insert name vs).1 = .error (.duplicateTypeName name') ↔
      name' = name ∧ (EnumType.declared ⟨r.nextId⟩ name vs).WellFormed ∧
        ∃ t, r.lookup? name = some t := by
  constructor
  · intro h
    have hvet := insert_fst_eq_error_iff.mp h
    unfold vet at hvet
    by_cases hempty : vs.isEmpty = true
    · rw [if_pos hempty] at hvet
      cases hvet
    · rw [if_neg hempty] at hvet
      rcases bind_eq_error_iff.mp hvet with hcheck | ⟨_, hcheck, hrest⟩
      · exact absurd hcheck indexVariants_ne_duplicateTypeName
      · by_cases hused : r.byName.contains name = true
        · rw [if_pos hused] at hrest
          cases hrest
          obtain ⟨hvs, hnodup, -⟩ := indexVariants_eq_ok_iff.mp hcheck
          exact ⟨rfl, EnumType.declared_wellFormed_iff.mpr ⟨by simpa using hempty, hvs, hnodup⟩,
            Dict.contains_iff.mp hused⟩
        · rw [if_neg hused] at hrest
          cases hrest
  · rintro ⟨rfl, hwf, t, hlookup⟩
    rw [insert_eq_duplicateTypeName hwf hlookup]

end TaggedUnion
