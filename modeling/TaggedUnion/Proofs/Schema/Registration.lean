import TaggedUnion.Proofs.Scan
import TaggedUnion.Proofs.Schema.InstanceName

/-!
# What registration accepts and reports

A declaration can be wrong in many ways at once: the name, each variant by itself, variants against each
other, the name against those in use. Registration stops at the first thing that is wrong.

* `Reserved`: the names that clients cannot give.
* `Variant.Defect`: what is wrong with a variant, given those before it.
* `Variant.defect_iff`: the checks of one variant find its defect; `indexVariants_eq_error_iff`: the scan
  finds the first.
* `Registry.Admits`, `Registry.Rejects`: the declarations that are well formed, and what is reported of
  the others. `plain` is the part of the name that the client gives, `name` the whole.
* `Registry.registration_reports_first_defect`: registration accepts exactly the former, and of the others
  it reports the first defect.
-/

namespace TaggedUnion

/-! ## Names -/

/-- The names that clients cannot give to types or generics. -/
def Reserved (name : String) : Prop :=
  '<' ∈ name.toList ∨ '>' ∈ name.toList ∨ ∃ s : Scalar, s.name = name

theorem checkPlainName_eq_ok_iff_not_reserved {name : String} :
    checkPlainName name = .ok () ↔ name ≠ "" ∧ ¬ Reserved name := by
  rw [checkPlainName_eq_ok_iff, Reserved, not_or, not_or, not_exists]

/-- A name is rejected for being empty, or else for being reserved. -/
theorem checkPlainName_eq_error_iff {name : String} {e : RegistryError} :
    checkPlainName name = .error e ↔
      name = "" ∧ e = .emptyTypeName ∨
        name ≠ "" ∧ Reserved name ∧ e = .reservedTypeName name := by
  have hreserved : Reserved name ↔
      '<' ∈ name.toList ∨ '>' ∈ name.toList ∨ name ∈ Scalar.all.map (·.name) := by
    simp [Reserved, Scalar.mem_all]
  unfold checkPlainName
  by_cases hempty : name = ""
  · simp [hempty, @eq_comm _ e]
  · rw [if_neg hempty]
    by_cases hname : '<' ∈ name.toList ∨ '>' ∈ name.toList ∨ name ∈ Scalar.all.map (·.name)
    · rw [if_pos hname]
      simp [hempty, hreserved.mpr hname, @eq_comm _ e]
    · rw [if_neg hname]
      simp [hempty, mt hreserved.mp hname]

/-! ## One variant -/

/-- What is wrong with a variant of the type named `type`, behind the variants `earlier`. There are four
things, and each supposes that those before it do not apply. -/
inductive Variant.Defect (type : String) (earlier : List Variant) (v : Variant) : RegistryError → Prop
  /-- It has no name. -/
  | noName (hname : v.name = "") : v.Defect type earlier (.emptyVariantName type)
  /-- It declares fields, but none. -/
  | noFields (hname : v.name ≠ "") (hshape : v.shape = .positional [] ∨ v.shape = .named []) :
      v.Defect type earlier (.emptyFieldList type v.name)
  /-- It declares two fields of one name. -/
  | repeatedField {fields : List Field} {field : String} (hname : v.name ≠ "")
      (hshape : v.shape = .named fields) (hfirst : Text.FirstRepeat (fields.map (·.name)) field) :
      v.Defect type earlier (.duplicateFieldName type v.name field)
  /-- It has the name of a variant before it. -/
  | repeated (hwf : v.WellFormed) (hearlier : v.name ∈ earlier.map (·.name)) :
      v.Defect type earlier (.duplicateVariantName type v.name)

/-- The checks on one variant stop at the first of three things. -/
theorem Variant.check_eq_error_iff {type : String} {v : Variant} {e : RegistryError} :
    v.check type = .error e ↔
      v.name = "" ∧ e = .emptyVariantName type ∨
      v.name ≠ "" ∧
        ((v.shape = .positional [] ∨ v.shape = .named []) ∧ e = .emptyFieldList type v.name ∨
          ∃ fields, v.shape = .named fields ∧ ∃ field,
            Text.FirstRepeat (fields.map (·.name)) field ∧
              e = .duplicateFieldName type v.name field) := by
  unfold Variant.check
  by_cases hname : v.name = ""
  · simp [hname, eq_comm]
  · rw [if_neg hname]
    cases hshape : v.shape with
    | unit => simp [hname]
    | positional types => cases types <;> simp [hname, eq_comm]
    | named fields =>
      simp only [Shape.named.injEq, exists_eq_left', ← Text.firstRepeat?_eq_some_iff]
      cases fields with
      | nil => simp [hname, Text.firstRepeat?, Text.firstRepeatAfter?, eq_comm]
      | cons f fs =>
        -- only the scan of the names is left
        dsimp only
        cases Text.firstRepeat? ((f :: fs).map (·.name)) <;> simp [hname, eq_comm]

/-- What is wrong with a variant is what its own checks find, or else that its name was given before. -/
theorem Variant.defect_iff {type : String} {earlier : List Variant} {v : Variant}
    {e : RegistryError} :
    v.Defect type earlier e ↔ v.check type = .error e ∨
      v.check type = .ok () ∧ v.name ∈ earlier.map (·.name) ∧
        e = .duplicateVariantName type v.name := by
  rw [check_eq_error_iff, check_eq_ok_iff]
  constructor
  · intro h
    cases h with
    | noName hname => exact .inl (.inl ⟨hname, rfl⟩)
    | noFields hname hshape => exact .inl (.inr ⟨hname, .inl ⟨hshape, rfl⟩⟩)
    | repeatedField hname hshape hfirst =>
      exact .inl (.inr ⟨hname, .inr ⟨_, hshape, _, hfirst, rfl⟩⟩)
    | repeated hwf hearlier => exact .inr ⟨hwf, hearlier, rfl⟩
  · rintro ((⟨hname, rfl⟩ | ⟨hname, ⟨hshape, rfl⟩ | ⟨_, hshape, _, hfirst, rfl⟩⟩) |
      ⟨hwf, hearlier, rfl⟩)
    · exact .noName hname
    · exact .noFields hname hshape
    · exact .repeatedField hname hshape hfirst
    · exact .repeated hwf hearlier

/-! ## All variants -/

/-- The scan stops at the first variant that has a defect. Induction on the list; the index has the names
of the variants passed. -/
theorem indexVariants_eq_error_iff {type : String} {index : Dict String Nat} {tag : Nat}
    {earlier vs : List Variant} {e : RegistryError}
    (hseen : ∀ name, index.contains name = true ↔ name ∈ earlier.map (·.name)) :
    indexVariants type index tag vs = .error e ↔ FirstDefect (Variant.Defect type) earlier vs e := by
  induction vs generalizing index tag earlier with
  | nil => simp [indexVariants, not_firstDefect_nil]
  | cons v vs ih =>
    -- the grown index has the names of the variants passed, this one among them
    have hseen' : ∀ name, (index.insert v.name tag).contains name = true ↔
        name ∈ (earlier ++ [v]).map (·.name) := by
      intro name
      rw [Dict.contains_insert, Bool.or_eq_true, hseen, beq_iff_eq, List.map_append, List.mem_append,
        List.map_singleton, List.mem_singleton, or_comm, eq_comm]
    have hrest : indexVariants type (index.insert v.name tag) (tag + 1) vs = .error e ↔ _ := ih hseen'
    rw [indexVariants, bind_eq_error_iff, firstDefect_cons_iff, ← hrest]
    simp only [Variant.defect_iff, ← hseen]
    cases v.check type with
    | error e' => simp
    | ok _ =>
      by_cases hname : index.contains v.name = true
      · simp [hname, eq_comm]
      · simp [hname]

/-! ## Registration -/

namespace Registry

/-- The declaration of a type named `name` is well formed, the part `plain` of the name is one that
clients can give, and the name is not in use: it is no key of the table, hence, by
`Consistent.keys_eq`, not the name of a registered type. -/
structure Admits (r : Registry) (plain name : String) (vs : List Variant) : Prop where
  plain_ne_empty : plain ≠ ""
  plain_not_reserved : ¬ Reserved plain
  variants_ne_nil : vs ≠ []
  variant : ∀ v ∈ vs, v.WellFormed
  names_nodup : (vs.map (·.name)).Nodup
  unused : name ∉ r.byName.keys

/-- What is reported of a declaration. There are five things, and each supposes that those before it do
not apply. -/
inductive Rejects (r : Registry) (plain name : String) (vs : List Variant) : RegistryError → Prop
  | emptyName (hempty : plain = "") : r.Rejects plain name vs .emptyTypeName
  | reserved (hplain : plain ≠ "") (hreserved : Reserved plain) :
      r.Rejects plain name vs (.reservedTypeName plain)
  | noVariants (hplain : plain ≠ "" ∧ ¬ Reserved plain) (hnone : vs = []) :
      r.Rejects plain name vs (.noVariants name)
  | variant {e : RegistryError} (hplain : plain ≠ "" ∧ ¬ Reserved plain)
      (hfirst : FirstDefect (Variant.Defect name) [] vs e) : r.Rejects plain name vs e
  /-- All else is in order. -/
  | inUse (hplain : plain ≠ "" ∧ ¬ Reserved plain) (hne : vs ≠ []) (hvs : ∀ v ∈ vs, v.WellFormed)
      (hnodup : (vs.map (·.name)).Nodup) (hused : name ∈ r.byName.keys) :
      r.Rejects plain name vs (.duplicateTypeName name)

variable {r : Registry} {plain name : String} {vs : List Variant} {e : RegistryError}

theorem lookup?_eq_none_iff_not_mem_keys : r.lookup? name = none ↔ name ∉ r.byName.keys := by
  rw [lookup?, ← Dict.contains_eq_false_iff, ← Dict.contains_iff_mem_keys, Bool.not_eq_true]

/-- What keeps out a type: there are no variants, or one is malformed, or their names are not distinct,
or the name of the type is in use. -/
theorem exists_insert_iff :
    (∃ t r', r.insert name vs = (.ok t, r')) ↔
      vs ≠ [] ∧ (∀ v ∈ vs, v.WellFormed) ∧ (vs.map (·.name)).Nodup ∧ name ∉ r.byName.keys := by
  simp only [insert_eq_ok_iff, lookup?_eq_none_iff_not_mem_keys]
  constructor
  · rintro ⟨_, _, hwf, hfree, rfl, -⟩
    exact ⟨hwf.variants_ne_nil, hwf.variant, hwf.names_nodup, hfree⟩
  · rintro ⟨hne, hvs, hnodup, hfree⟩
    exact ⟨_, _, EnumType.declared_wellFormed_iff.mpr ⟨hne, hvs, hnodup⟩, hfree, rfl, rfl⟩

/-- A type that is not added has no variants, or a variant with a defect, or a name that is in use. -/
theorem insert_eq_error_iff :
    (r.insert name vs).1 = .error e ↔
      vs = [] ∧ e = .noVariants name ∨ FirstDefect (Variant.Defect name) [] vs e ∨
        vs ≠ [] ∧ (∀ v ∈ vs, v.WellFormed) ∧ (vs.map (·.name)).Nodup ∧
          name ∈ r.byName.keys ∧ e = .duplicateTypeName name := by
  -- the scan starts with an empty index
  have hscan : indexVariants name {} 0 vs = .error e ↔ FirstDefect (Variant.Defect name) [] vs e :=
    indexVariants_eq_error_iff (by simp [Dict.contains, Dict.get?])
  have hok : (∃ index, indexVariants name {} 0 vs = .ok index) ↔
      (∀ v ∈ vs, v.WellFormed) ∧ (vs.map (·.name)).Nodup := by
    simp [indexVariants_eq_ok_iff, Dict.get?]
  rw [← hscan, ← and_assoc (a := ∀ v ∈ vs, v.WellFormed), ← hok, ← Dict.contains_iff_mem_keys,
    insert_fst_eq_error_iff]
  unfold vet
  cases vs with
  | nil => simp [indexVariants, @eq_comm _ e]
  | cons v vs =>
    rw [if_neg (by simp)]
    cases indexVariants name {} 0 (v :: vs) with
    | error e' => simp [bind, Except.bind]
    | ok index =>
      dsimp only [bind, Except.bind]
      by_cases hused : r.byName.contains name = true
      · simp [hused, eq_comm]
      · simp [hused]

/-- The two ways to register a type check the client's part of the name first, and then add the type. -/
theorem exists_enter_iff :
    (∃ t r', r.enter plain name vs = (.ok t, r')) ↔ r.Admits plain name vs := by
  simp only [enter_eq_ok_iff, exists_and_left]
  rw [checkPlainName_eq_ok_iff_not_reserved, exists_insert_iff]
  constructor
  · rintro ⟨⟨hplain, hreserved⟩, hne, hvs, hnodup, hunused⟩
    exact ⟨hplain, hreserved, hne, hvs, hnodup, hunused⟩
  · rintro ⟨hplain, hreserved, hne, hvs, hnodup, hunused⟩
    exact ⟨⟨hplain, hreserved⟩, hne, hvs, hnodup, hunused⟩

/-- What is reported of a call is what stands first among the defects of the declaration. -/
theorem enter_eq_error_iff :
    (r.enter plain name vs).1 = .error e ↔ r.Rejects plain name vs e := by
  -- the client's part of the name is checked before anything else
  have hcases : (r.enter plain name vs).1 = .error e ↔
      checkPlainName plain = .error e ∨
        checkPlainName plain = .ok () ∧ (r.insert name vs).1 = .error e := by
    unfold enter
    cases checkPlainName plain <;> simp
  rw [hcases, checkPlainName_eq_error_iff, insert_eq_error_iff,
    checkPlainName_eq_ok_iff_not_reserved]
  constructor
  · rintro ((⟨hempty, rfl⟩ | ⟨hplain, hreserved, rfl⟩) | ⟨hplain, hinsert⟩)
    · exact .emptyName hempty
    · exact .reserved hplain hreserved
    · rcases hinsert with ⟨hnone, rfl⟩ | hfirst | ⟨hne, hvs, hnodup, hused, rfl⟩
      · exact .noVariants hplain hnone
      · exact .variant hplain hfirst
      · exact .inUse hplain hne hvs hnodup hused
  · intro h
    cases h with
    | emptyName hempty => exact .inl (.inl ⟨hempty, rfl⟩)
    | reserved hplain hreserved => exact .inl (.inr ⟨hplain, hreserved, rfl⟩)
    | noVariants hplain hnone => exact .inr ⟨hplain, .inl ⟨hnone, rfl⟩⟩
    | variant hplain hfirst => exact .inr ⟨hplain, .inr (.inl hfirst)⟩
    | inUse hplain hne hvs hnodup hused =>
      exact .inr ⟨hplain, .inr (.inr ⟨hne, hvs, hnodup, hused, rfl⟩)⟩

/-- Registration accepts exactly the well-formed declarations, and of any other it reports the first
defect. These come in this order: the name is empty; it is reserved; there are no variants; the first
variant that is malformed or has the name of an earlier one, and what is wrong with it; the name is in
use. An instance of a generic is registered in the same way: the generic is what the client names, and
the built name is what must not be in use. -/
theorem registration_reports_first_defect (r : Registry) (name generic : String)
    (args : List FieldType) (vs : List Variant) :
    ((∃ t r', r.register name vs = (.ok t, r')) ↔ r.Admits name name vs) ∧
    (∀ e, (r.register name vs).1 = .error e ↔ r.Rejects name name vs e) ∧
    ((∃ t r', r.registerInstance generic args vs = (.ok t, r')) ↔
      r.Admits generic (instanceName generic args) vs) ∧
    ∀ e, (r.registerInstance generic args vs).1 = .error e ↔
      r.Rejects generic (instanceName generic args) vs e := by
  refine ⟨exists_enter_iff, ?_, exists_enter_iff, ?_⟩
  · intro e
    exact enter_eq_error_iff
  · intro e
    exact enter_eq_error_iff

/-- The name is in use as well, and the third variant has none; but the second comes before. -/
example : (onlyMessage.register "Message"
    [⟨"Quit", .unit⟩, ⟨"Move", .named [⟨"x", .scalar .int⟩, ⟨"x", .scalar .int⟩]⟩, ⟨"", .unit⟩]).1
    = .error (.duplicateFieldName "Message" "Move" "x") := rfl

end Registry

end TaggedUnion
