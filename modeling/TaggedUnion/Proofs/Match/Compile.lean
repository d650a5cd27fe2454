import TaggedUnion.Proofs.Match.Arms

/-!
# Compiling a list of arms

Compiling takes the arms one by one and fills a table by tag. The state that it has reached is a
function of the arms seen so far, and this is the invariant that carries everything here.

* `Coverage.Records`: the state after a list of arms, in terms of that list alone.
* `Coverage.add_eq_ok_iff`: everything that one arm can do to the state.
* `Coverage.records_of_add`, `Coverage.exists_add`: the step, in both directions.
* `Coverage.records_of_foldlM`, `Coverage.exists_foldlM`: the run, by induction on the last arm.
* `Plan.exists_compile_iff`: a list is compiled exactly if it is accepted and exhaustive.
* `Plan.armFor?_of_compile`: the table sends each tag to the first arm that covers its variant.
-/

namespace TaggedUnion

namespace Coverage

/-- The state `c` is the one after the arms `heads`: each tag is claimed by the first arm that names
its variant, the first wildcard takes the rest, and each binder is resolved against its shape. -/
structure Records (type : EnumType) (heads : List ArmHead) (c : Coverage) : Prop where
  claims : c.claims
    = type.variantNames.map fun name => heads.findIdx? (·.pattern == .variant name)
  wildcard : c.wildcard = heads.findIdx? (·.isWildcard)
  binders : List.Forall₂ (fun b h => h.binder.resolve (h.shape? type) = .ok b) c.binders heads

variable {type : EnumType} {heads : List ArmHead} {c c' : Coverage} {head : ArmHead}

theorem Records.length_binders (h : Records type heads c) : c.binders.length = heads.length :=
  h.binders.length_eq

/-- Each tag of the type has a claim, the one of its own variant. -/
theorem Records.claims_getElem? (h : Records type heads c) (tag : Fin type.variants.length) :
    c.claims[tag.val]?
      = some (heads.findIdx? (·.pattern == .variant (type.variants.get tag).name)) := by
  rw [h.claims, List.getElem?_map, EnumType.variantNames, List.getElem?_map,
    List.getElem?_eq_getElem tag.isLt]
  rfl

/-- Where names are distinct, to change the image at the position of a name is to change the image of
this name. -/
theorem set_map_of_nodup {α : Type} {names : List String} (hnames : names.Nodup) {f g : String → α}
    {i : Nat} {name : String} (hname : names[i]? = some name)
    (hother : ∀ n, n ≠ name → g n = f n) : (names.map f).set i (g name) = names.map g := by
  refine List.ext_getElem? fun j => ?_
  rw [List.getElem?_set, List.getElem?_map, List.getElem?_map, List.length_map]
  obtain ⟨hi, rfl⟩ := List.getElem?_eq_some_iff.mp hname
  by_cases hij : i = j
  · subst hij
    rw [if_pos rfl, if_pos hi, hname]
    rfl
  · rw [if_neg hij]
    cases hj : names[j]? with
    | none => rfl
    | some n =>
      obtain ⟨hj', rfl⟩ := List.getElem?_eq_some_iff.mp hj
      have hne : names[j] ≠ names[i] := by
        intro heq
        exact hij ((List.Nodup.getElem_inj_iff hnames).mp heq).symm
      rw [Option.map_some, Option.map_some, hother _ hne]

/-- Before the first arm no tag is claimed. -/
theorem records_empty : Records type [] (empty type) where
  claims := by
    rw [empty, EnumType.variantCount, ← EnumType.length_variantNames, ← List.map_const']
    rfl
  wildcard := rfl
  binders := .nil

/-! ## One arm -/

/-- The arm only adds its name to what is wrong with its binder. -/
theorem resolve_eq_ok_iff {shape : Option Shape} {b : ResolvedBinder} :
    resolve type head shape = .ok b ↔ head.binder.resolve shape = .ok b := by
  unfold resolve
  cases head.binder.resolve shape <;> simp

/-- Everything that one arm can do: nothing may have taken everything before; then the arm becomes
the wildcard, or it claims the tag of its variant, which must be free. -/
theorem add_eq_ok_iff :
    add type c head = .ok c' ↔ c.wildcard = none ∧
      ((head.pattern = .wildcard ∧ ∃ b, head.binder.resolve none = .ok b ∧
          c' = { c with wildcard := some c.binders.length, binders := c.binders ++ [b] }) ∨
        ∃ name tag v b, head.pattern = .variant name ∧ type.variantNamed? name = some (tag, v) ∧
          c.claims[tag.val]?.join = none ∧ head.binder.resolve (some v.shape) = .ok b ∧
          c' = { c with claims := c.claims.set tag (some c.binders.length),
                        binders := c.binders ++ [b] }) := by
  unfold add
  cases hwildcard : c.wildcard with
  | some w => simp
  | none =>
    -- nothing has taken everything, so the pattern of the arm decides
    cases hpattern : head.pattern with
    | wildcard =>
      show resolve type head none >>= _ = _ ↔ _
      rw [bind_eq_ok_iff]
      simp only [resolve_eq_ok_iff, Except.ok.injEq]
      constructor
      · intro h
        obtain ⟨b, hb, rfl⟩ := h
        exact ⟨trivial, .inl ⟨trivial, b, hb, rfl⟩⟩
      · intro h
        obtain ⟨-, ⟨-, b, hb, rfl⟩ | ⟨_, _, _, _, hcontra, -⟩⟩ := h
        · exact ⟨b, hb, rfl⟩
        · cases hcontra
    | variant name =>
      cases hnamed : type.variantNamed? name with
      | none => simp [hnamed]
      | some found =>
        obtain ⟨tag, v⟩ := found
        dsimp only
        have htag : c.claims[tag]? = c.claims[tag.val]? := rfl
        rw [hnamed]
        dsimp only
        rw [htag]
        constructor
        · intro h
          cases hclaim : c.claims[tag.val]?.join with
          | some first =>
            rw [hclaim] at h
            cases h
          | none =>
            rw [hclaim] at h
            obtain ⟨b, hb, h⟩ := bind_eq_ok_iff.mp h
            cases h
            exact ⟨rfl, .inr ⟨name, tag, v, b, rfl, hnamed, hclaim, resolve_eq_ok_iff.mp hb, rfl⟩⟩
        · intro h
          obtain ⟨-, ⟨hcontra, -⟩ | ⟨_, tag', v', b, ⟨⟩, hnamed', hclaim, hb, rfl⟩⟩ := h
          · cases hcontra
          · rw [hnamed] at hnamed'
            cases hnamed'
            rw [hclaim]
            exact bind_eq_ok_iff.mpr ⟨b, resolve_eq_ok_iff.mpr hb, rfl⟩

/-- The shape that a binder is checked against is that of the variant found by name. -/
theorem shape?_of_variantNamed? (htype : type.WellFormed) {name : String}
    (hpattern : head.pattern = .variant name) {tag : Fin type.variants.length} {v : Variant}
    (hnamed : type.variantNamed? name = some (tag, v)) : head.shape? type = some v.shape := by
  obtain ⟨rfl, rfl⟩ := (EnumType.variantNamed?_eq_some_iff htype).mp hnamed
  rw [ArmHead.shape?, hpattern]
  show (type.variants.find? (·.name == (type.variants.get tag).name)).map (·.shape) = _
  have hfind : type.variants.find? (·.name == (type.variants.get tag).name)
      = some (type.variants.get tag) :=
    find?_eq_some_of_nodup htype.names_nodup (List.get_mem _ _)
  rw [hfind]
  rfl

/-- The claim on a tag is the first arm that names its variant. -/
theorem Records.claims_join (htype : type.WellFormed) (h : Records type heads c)
    {name : String} {tag : Fin type.variants.length} {v : Variant}
    (hnamed : type.variantNamed? name = some (tag, v)) :
    c.claims[tag.val]?.join = heads.findIdx? (·.pattern == .variant name) := by
  obtain ⟨rfl, rfl⟩ := (EnumType.variantNamed?_eq_some_iff htype).mp hnamed
  rw [h.claims_getElem? tag, Option.join_some]

theorem shape?_of_wildcard (hpattern : head.pattern = .wildcard) : head.shape? type = none := by
  rw [ArmHead.shape?, hpattern]

/-- Binders are checked against well-formed shapes only. -/
theorem wellFormed_of_shape? (htype : type.WellFormed) {s : Shape}
    (hs : head.shape? type = some s) : s.WellFormed := by
  unfold ArmHead.shape? at hs
  cases hpattern : head.pattern with
  | wildcard =>
    rw [hpattern] at hs
    cases hs
  | variant name =>
    rw [hpattern] at hs
    obtain ⟨v, hv, rfl⟩ := Option.map_eq_some_iff.mp hs
    exact (htype.variant v (List.mem_of_find?_eq_some hv)).shape

/-- One more arm is found only if none of the others is. -/
theorem findIdx?_concat (p : ArmHead → Bool) :
    (heads ++ [head]).findIdx? p
      = (heads.findIdx? p).or (if p head then some heads.length else none) := by
  rw [List.findIdx?_append]
  by_cases h : p head = true
  · simp [List.findIdx?_cons, h]
  · simp [List.findIdx?_cons, h]

/-- As long as no wildcard is recorded, there is none among the arms. -/
theorem no_wildcard_of_records (h : Records type heads c) (hnone : c.wildcard = none) :
    ∀ e ∈ heads, e.pattern ≠ .wildcard := by
  intro e he
  rw [h.wildcard, List.findIdx?_eq_none_iff] at hnone
  simpa [ArmHead.isWildcard] using hnone e he

theorem Records.wildcard_eq_none (h : Records type heads c)
    (hno : ∀ e ∈ heads, e.pattern ≠ .wildcard) : c.wildcard = none := by
  rw [h.wildcard, List.findIdx?_eq_none_iff]
  intro e he
  simpa [ArmHead.isWildcard] using hno e he

/-- A wildcard claims no tag, and the first of its kind takes the rest. -/
theorem Records.concat_wildcard (h : Records type heads c) (hnone : c.wildcard = none)
    (hpattern : head.pattern = .wildcard) {b : ResolvedBinder}
    (hb : head.binder.resolve (head.shape? type) = .ok b) :
    Records type (heads ++ [head])
      { c with wildcard := some c.binders.length, binders := c.binders ++ [b] } := by
  refine ⟨?_, ?_, List.rel_append h.binders (.cons hb .nil)⟩
  · show c.claims = _
    rw [h.claims]
    refine List.map_congr_left fun name _ => ?_
    rw [findIdx?_concat, hpattern]
    simp
  · show some c.binders.length = _
    have hwildcard : head.isWildcard = true := ArmHead.isWildcard_iff.mpr hpattern
    rw [findIdx?_concat, ← h.wildcard, hnone, if_pos hwildcard, h.length_binders]
    rfl

/-- A named arm claims the tag of its variant, which no arm has claimed before. -/
theorem Records.concat_variant (htype : type.WellFormed) (h : Records type heads c)
    (hnone : c.wildcard = none) {tag : Fin type.variants.length}
    (hpattern : head.pattern = .variant (type.variants.get tag).name)
    (hfree : heads.findIdx? (·.pattern == .variant (type.variants.get tag).name) = none)
    {b : ResolvedBinder} (hb : head.binder.resolve (head.shape? type) = .ok b) :
    Records type (heads ++ [head])
      { c with claims := c.claims.set tag (some c.binders.length),
               binders := c.binders ++ [b] } := by
  refine ⟨?_, ?_, List.rel_append h.binders (.cons hb .nil)⟩
  · show c.claims.set tag (some c.binders.length) = _
    have hname : type.variantNames[tag.val]? = some (type.variants.get tag).name := by
      rw [EnumType.variantNames, List.getElem?_map, List.getElem?_eq_getElem tag.isLt]
      rfl
    have hclaim : (heads ++ [head]).findIdx? (·.pattern == .variant (type.variants.get tag).name)
        = some c.binders.length := by
      rw [findIdx?_concat, hfree, hpattern, if_pos (beq_self_eq_true _), h.length_binders]
      rfl
    -- the claim that is set is the first arm that names this variant
    rw [h.claims, ← hclaim]
    refine set_map_of_nodup
      (g := fun name => (heads ++ [head]).findIdx? (·.pattern == .variant name))
      htype.names_nodup hname fun n hne => ?_
    -- the claims on the other tags stay as they were
    have hbeq : (Pattern.variant (type.variants.get tag).name == Pattern.variant n) = false := by
      rw [beq_eq_false_iff_ne]
      intro heq
      exact hne (Pattern.variant.inj heq).symm
    rw [findIdx?_concat, hpattern, hbeq]
    simp
  · show c.wildcard = _
    have hwildcard : head.isWildcard = false := by
      rw [ArmHead.isWildcard, hpattern]
      rfl
    rw [findIdx?_concat, ← h.wildcard, hnone, hwildcard]
    rfl

/-- The step forward: an arm that is taken was admissible, and the state after it is again the one
that the arms determine. -/
theorem records_of_add (htype : type.WellFormed) (h : Records type heads c)
    (hadd : add type c head = .ok c') :
    head.Admissible type heads ∧ Records type (heads ++ [head]) c' := by
  obtain ⟨hnone, hcases⟩ := add_eq_ok_iff.mp hadd
  have hreachable := no_wildcard_of_records h hnone
  have hfits : ∀ b, head.binder.resolve (head.shape? type) = .ok b →
      head.binder.Fits (head.shape? type) := by
    intro b hb
    exact (Binder.exists_resolve_iff fun s hs => wellFormed_of_shape? htype hs).mp ⟨b, hb⟩
  rcases hcases with ⟨hpattern, b, hb, rfl⟩ | ⟨name, tag, v, b, hpattern, hnamed, hfree, hb, rfl⟩
  · -- the arm is a wildcard: it names no variant, so two of the conditions are empty
    have hnoshape : head.shape? type = none := shape?_of_wildcard hpattern
    rw [← hnoshape] at hb
    refine ⟨⟨hreachable, ?_, ?_, hfits b hb⟩, h.concat_wildcard hnone hpattern hb⟩
    · intro name hname
      rw [hpattern] at hname
      cases hname
    · intro name hname
      rw [hpattern] at hname
      cases hname
  · rw [← shape?_of_variantNamed? htype hpattern hnamed] at hb
    -- a tag is free if no arm has named its variant
    rw [h.claims_join htype hnamed] at hfree
    obtain ⟨rfl, rfl⟩ := (EnumType.variantNamed?_eq_some_iff htype).mp hnamed
    refine ⟨⟨hreachable, ?_, ?_, hfits b hb⟩, h.concat_variant htype hnone hpattern hfree hb⟩
    · intro name hname
      rw [hpattern] at hname
      cases hname
      exact List.mem_map_of_mem (List.getElem_mem _)
    · intro name hname e he
      rw [hpattern] at hname
      cases hname
      rw [List.findIdx?_eq_none_iff] at hfree
      simpa using hfree e he

/-- The step back: an admissible arm is taken. -/
theorem exists_add (htype : type.WellFormed) (h : Records type heads c)
    (hadm : head.Admissible type heads) : ∃ c', add type c head = .ok c' := by
  have hnone : c.wildcard = none := h.wildcard_eq_none hadm.reachable
  obtain ⟨b, hb⟩ := (Binder.exists_resolve_iff fun s hs => wellFormed_of_shape? htype hs).mpr
    hadm.fits
  cases hpattern : head.pattern with
  | wildcard =>
    rw [shape?_of_wildcard hpattern] at hb
    exact ⟨_, add_eq_ok_iff.mpr ⟨hnone, .inl ⟨hpattern, b, hb, rfl⟩⟩⟩
  | variant name =>
    cases hnamed : type.variantNamed? name with
    | none => exact absurd (hadm.known name hpattern) ((EnumType.variantNamed?_eq_none_iff htype).mp hnamed)
    | some found =>
      obtain ⟨tag, v⟩ := found
      rw [shape?_of_variantNamed? htype hpattern hnamed] at hb
      have hfree : c.claims[tag.val]?.join = none := by
        rw [h.claims_join htype hnamed, List.findIdx?_eq_none_iff]
        intro e he
        simpa using hadm.fresh name hpattern e he
      exact ⟨_, add_eq_ok_iff.mpr ⟨hnone, .inr ⟨name, tag, v, b, hpattern, hnamed, hfree, hb, rfl⟩⟩⟩

/-! ## All arms -/

/-- Arms that were all taken are accepted, and the state is the one that they determine. Induction on
the last arm: the step is `records_of_add`. -/
theorem records_of_foldlM (htype : type.WellFormed)
    (h : heads.foldlM (add type) (empty type) = .ok c) :
    type.Accepts heads ∧ Records type heads c := by
  induction heads using List.reverseRecOn generalizing c with
  | nil =>
    cases h
    exact ⟨EnumType.accepts_nil, records_empty⟩
  | append_singleton earlier head ih =>
    rw [List.foldlM_append, bind_eq_ok_iff] at h
    obtain ⟨mid, hmid, hlast⟩ := h
    -- the fold over the last arm alone is one step
    have hadd : add type mid head = .ok c := by
      rw [List.foldlM_cons, bind_eq_ok_iff] at hlast
      obtain ⟨c', hadd, hnil⟩ := hlast
      cases hnil
      exact hadd
    obtain ⟨hacc, hrec⟩ := ih hmid
    obtain ⟨hadm, hrec'⟩ := records_of_add htype hrec hadd
    exact ⟨EnumType.accepts_concat_iff.mpr ⟨hacc, hadm⟩, hrec'⟩

/-- Accepted arms are all taken. Induction on the last arm: the step is `exists_add`. -/
theorem exists_foldlM (htype : type.WellFormed) (hacc : type.Accepts heads) :
    ∃ c, heads.foldlM (add type) (empty type) = .ok c := by
  induction heads using List.reverseRecOn with
  | nil => exact ⟨_, rfl⟩
  | append_singleton earlier head ih =>
    obtain ⟨hearlier, hadm⟩ := EnumType.accepts_concat_iff.mp hacc
    obtain ⟨mid, hmid⟩ := ih hearlier
    obtain ⟨c, hc⟩ := exists_add htype (records_of_foldlM htype hmid).2 hadm
    refine ⟨c, ?_⟩
    rw [List.foldlM_append, hmid]
    show (add type mid head >>= pure) = _
    rw [hc]
    rfl

/-! ## Closing the table -/

/-- The variants reported as missing are those that are uncovered. -/
theorem missing_eq (h : Records type heads c) : c.missing type = type.uncovered heads := by
  unfold missing EnumType.uncovered
  rw [h.claims]
  generalize type.variantNames = names
  induction names with
  | nil => rfl
  | cons name names ih =>
    -- a tag that is not claimed is that of a variant which no arm names
    have hclaim : (heads.findIdx? (·.pattern == .variant name)).isNone
        = heads.all (·.pattern != .variant name) := by
      rw [Bool.eq_iff_iff, Option.isNone_iff_eq_none, List.findIdx?_eq_none_iff, List.all_eq_true]
      simp [bne]
    rw [List.map_cons, List.zip_cons_cons, List.filterMap_cons, List.filter_cons, ih, ← hclaim]
    cases heads.findIdx? (·.pattern == .variant name) <;> rfl

/-- Nothing is missing exactly if each variant is named by an arm. -/
theorem isEmpty_missing_iff (h : Records type heads c) :
    (c.missing type).isEmpty = true ↔
      ∀ name ∈ type.variantNames, ∃ e ∈ heads, e.pattern = .variant name := by
  rw [missing_eq h, List.isEmpty_iff, List.eq_nil_iff_forall_not_mem]
  simp

theorem map_some_filterMap_id {α : Type} {xs : List (Option α)} (h : ∀ x ∈ xs, x.isSome) :
    (xs.filterMap id).map some = xs := by
  -- no `none` is dropped, so no entry moves to another place
  induction xs with
  | nil => rfl
  | cons x xs ih =>
    obtain ⟨y, rfl⟩ := Option.isSome_iff_exists.mp (h x List.mem_cons_self)
    rw [List.filterMap_cons, id, List.map_cons, ih fun z hz => h z (List.mem_cons_of_mem _ hz)]

/-- A table is closed exactly if the arms leave no variant out. -/
theorem exists_table_iff (h : Records type heads c) :
    (∃ table, c.table type = .ok table) ↔ type.Exhausts heads := by
  unfold table EnumType.Exhausts
  cases hwildcard : c.wildcard with
  | some w =>
    -- a wildcard is recorded, so there is one, and it takes what is left
    rw [h.wildcard] at hwildcard
    obtain ⟨hw, hpattern, -⟩ := List.findIdx?_eq_some_iff_getElem.mp hwildcard
    have hmem : ∃ e ∈ heads, e.pattern = .wildcard :=
      ⟨heads[w], List.getElem_mem hw, ArmHead.isWildcard_iff.mp hpattern⟩
    exact ⟨fun _ => .inl hmem, fun _ => ⟨_, rfl⟩⟩
  | none =>
    have hno : ¬ ∃ e ∈ heads, e.pattern = .wildcard := by
      intro hex
      obtain ⟨e, he, hpattern⟩ := hex
      exact no_wildcard_of_records h hwildcard e he hpattern
    rw [or_iff_right hno, ← isEmpty_missing_iff h]
    -- without a wildcard the table is closed if no variant is missing
    dsimp only
    by_cases hmissing : (c.missing type).isEmpty = true
    · rw [if_pos hmissing]
      exact ⟨fun _ => hmissing, fun _ => ⟨_, rfl⟩⟩
    · rw [if_neg hmissing]
      simp [hmissing]

/-- A closed table has an entry for each variant, the first arm that covers it, and no more. -/
theorem map_some_table (h : Records type heads c) (hacc : type.Accepts heads) {table : List Nat}
    (htable : c.table type = .ok table) :
    table.map some = type.variantNames.map fun name => heads.findIdx? (·.covers name) := by
  have hcovers : (fun name => heads.findIdx? (·.covers name)) = fun name =>
      (heads.findIdx? (·.pattern == .variant name)).or c.wildcard := by
    funext name
    rw [hacc.findIdx?_covers, h.wildcard]
  rw [hcovers]
  unfold Coverage.table at htable
  cases hwildcard : c.wildcard with
  | some w =>
    rw [hwildcard] at htable
    cases htable
    rw [h.claims, List.map_map, List.map_map]
    -- tags that no arm has claimed go to the wildcard
    refine List.map_congr_left fun name _ => ?_
    show some ((heads.findIdx? (·.pattern == .variant name)).getD w) = _
    cases heads.findIdx? (·.pattern == .variant name) <;> rfl
  | none =>
    rw [hwildcard] at htable
    dsimp only at htable
    by_cases hmissing : (c.missing type).isEmpty = true
    · rw [if_pos hmissing] at htable
      cases htable
      -- every tag is claimed, so dropping the claims that are `none` shifts nothing
      have hclaimed : ∀ claim ∈ c.claims, claim.isSome := by
        intro claim hclaim
        rw [h.claims] at hclaim
        obtain ⟨name, hname, rfl⟩ := List.mem_map.mp hclaim
        obtain ⟨e, he, hpattern⟩ := (isEmpty_missing_iff h).mp hmissing name hname
        rw [List.findIdx?_isSome, List.any_eq_true]
        exact ⟨e, he, beq_iff_eq.mpr hpattern⟩
      rw [map_some_filterMap_id hclaimed, h.claims]
      refine List.map_congr_left fun name _ => ?_
      rw [Option.or_none]
    · rw [if_neg hmissing] at htable
      cases htable

end Coverage

/-! ## Plans -/

namespace Plan

variable {type : EnumType} {heads : List ArmHead} {p : Plan}

/-- Compiling takes the arms one by one and then closes the table. -/
theorem compile_eq_ok_iff :
    compile type heads = .ok p ↔ ∃ c table,
      heads.foldlM (Coverage.add type) (Coverage.empty type) = .ok c ∧
        c.table type = .ok table ∧ p = ⟨type, table, c.binders⟩ := by
  unfold compile
  rw [bind_eq_ok_iff]
  constructor
  · intro h
    obtain ⟨c, hc, h⟩ := h
    obtain ⟨table, htable, h⟩ := bind_eq_ok_iff.mp h
    cases h
    exact ⟨c, table, hc, htable, rfl⟩
  · intro h
    obtain ⟨c, table, hc, htable, rfl⟩ := h
    exact ⟨c, hc, bind_eq_ok_iff.mpr ⟨table, htable, rfl⟩⟩

/-- A list compiles exactly if its arms are well formed and leave no variant out. -/
theorem exists_compile_iff (htype : type.WellFormed) :
    (∃ p, compile type heads = .ok p) ↔ type.Accepts heads ∧ type.Exhausts heads := by
  simp only [compile_eq_ok_iff]
  constructor
  · intro h
    obtain ⟨_, c, table, hc, htable, -⟩ := h
    obtain ⟨hacc, hrec⟩ := Coverage.records_of_foldlM htype hc
    exact ⟨hacc, (Coverage.exists_table_iff hrec).mp ⟨table, htable⟩⟩
  · intro h
    obtain ⟨hacc, hexhausts⟩ := h
    obtain ⟨c, hc⟩ := Coverage.exists_foldlM htype hacc
    obtain ⟨table, htable⟩ :=
      (Coverage.exists_table_iff (Coverage.records_of_foldlM htype hc).2).mpr hexhausts
    exact ⟨_, c, table, hc, htable, rfl⟩

theorem accepts_of_compile (htype : type.WellFormed) (h : compile type heads = .ok p) :
    type.Accepts heads :=
  ((exists_compile_iff htype).mp ⟨p, h⟩).1

theorem type_of_compile (h : compile type heads = .ok p) : p.type = type := by
  obtain ⟨_, _, -, -, rfl⟩ := compile_eq_ok_iff.mp h
  rfl

/-- A plan has the binders of the arms, resolved against their shapes. -/
theorem binders_of_compile (htype : type.WellFormed) (h : compile type heads = .ok p) :
    List.Forall₂ (fun b head => head.binder.resolve (head.shape? type) = .ok b)
      p.binders heads := by
  obtain ⟨c, _, hc, -, rfl⟩ := compile_eq_ok_iff.mp h
  exact (Coverage.records_of_foldlM htype hc).2.binders

/-- The binder of an arm stands in the plan at the place of the arm. -/
theorem exists_resolve_of_compile (htype : type.WellFormed) (h : compile type heads = .ok p) {i : Nat}
    {e : ArmHead} (hi : heads[i]? = some e) :
    ∃ b, p.binders[i]? = some b ∧ e.binder.resolve (e.shape? type) = .ok b := by
  have hresolved := binders_of_compile htype h
  obtain ⟨hlt, rfl⟩ := List.getElem?_eq_some_iff.mp hi
  have hlt' : i < p.binders.length := hresolved.length_eq ▸ hlt
  exact ⟨p.binders[i], List.getElem?_eq_getElem hlt', hresolved.get hlt' hlt⟩

/-- The entry for a tag is the first arm that covers the variant of that tag; there is none for a tag
that no variant has. -/
theorem armFor?_of_compile (htype : type.WellFormed) (h : compile type heads = .ok p) (tag : Nat) :
    p.armFor? tag = (type.variant? tag).bind fun v => heads.findIdx? (·.covers v.name) := by
  obtain ⟨c, table, hc, htable, rfl⟩ := compile_eq_ok_iff.mp h
  obtain ⟨hacc, hrec⟩ := Coverage.records_of_foldlM htype hc
  have hentry : (table[tag]?).map some
      = (type.variants[tag]?).map fun v => heads.findIdx? (·.covers v.name) := by
    rw [← List.getElem?_map, Coverage.map_some_table hrec hacc htable, List.getElem?_map,
      EnumType.variantNames, List.getElem?_map, Option.map_map]
    rfl
  show table[tag]? = (type.variants[tag]?).bind fun v => heads.findIdx? (·.covers v.name)
  cases hvariant : type.variants[tag]? with
  | none =>
    rw [hvariant] at hentry
    exact Option.map_eq_none_iff.mp hentry
  | some v =>
    rw [hvariant] at hentry
    obtain ⟨arm, harm, hfirst⟩ := Option.map_eq_some_iff.mp hentry
    rw [harm, hfirst]
    rfl

theorem exists_armFor? (htype : type.WellFormed) (h : compile type heads = .ok p) {tag : Nat}
    (htag : tag < type.variants.length) : ∃ arm, p.armFor? tag = some arm := by
  obtain ⟨c, table, hc, htable, rfl⟩ := compile_eq_ok_iff.mp h
  obtain ⟨hacc, hrec⟩ := Coverage.records_of_foldlM htype hc
  -- the table is as long as the list of variants
  have hlen := congrArg List.length (Coverage.map_some_table hrec hacc htable)
  rw [List.length_map, List.length_map, EnumType.length_variantNames] at hlen
  exact ⟨table[tag], List.getElem?_eq_getElem (hlen ▸ htag)⟩

/-- An arm that names a variant fires for exactly one tag. -/
theorem existsUnique_armFor? (htype : type.WellFormed) (h : compile type heads = .ok p) {i : Nat}
    {e : ArmHead} (hi : heads[i]? = some e) {name : String} (hpattern : e.pattern = .variant name) :
    ∃! tag, p.armFor? tag = some i := by
  have hacc := accepts_of_compile htype h
  -- the arm fires for the tags of the variant that it names
  have hfires : ∀ tag, p.armFor? tag = some i ↔ (type.variant? tag).map (·.name) = some name := by
    intro tag
    rw [armFor?_of_compile htype h, Option.bind_eq_some_iff, Option.map_eq_some_iff]
    refine exists_congr fun v => and_congr_right fun _ => ?_
    exact hacc.findIdx?_covers_eq_some_iff hi hpattern
  obtain ⟨v, hv, hname⟩ := List.mem_map.mp (hacc.known e (List.mem_of_getElem? hi) name hpattern)
  obtain ⟨tag, htag⟩ := List.mem_iff_getElem?.mp hv
  have hvariant : type.variant? tag = some v := htag
  refine ⟨tag, (hfires tag).mpr ?_, ?_⟩
  · rw [hvariant, Option.map_some, hname]
  · intro other hother
    -- two tags of one name are one tag
    obtain ⟨v', hv', hname'⟩ := Option.map_eq_some_iff.mp ((hfires other).mp hother)
    exact index_eq_of_nodup htype.names_nodup hv' htag (hname'.trans hname.symm)

/-- Compiling accepts exactly the well-formed exhaustive lists of arms, and the table that it makes is
first match: each tag fires the first arm that covers its variant, nothing lies behind the last tag, and
no arm that names a variant is idle or fires twice. -/
theorem compile_accepts_exactly_and_is_first_match {r : Registry} (hr : r.Reachable)
    (ht : type ∈ r.types) :
    ((∃ p, compile type heads = .ok p) ↔ type.Accepts heads ∧ type.Exhausts heads) ∧
      ∀ p, compile type heads = .ok p →
        p.armCount = heads.length ∧ p.type.id = type.id ∧
        (∀ tag v, type.variant? tag = some v →
          ∃ i, p.armFor? tag = some i ∧ heads.findIdx? (·.covers v.name) = some i) ∧
        (∀ tag, type.variantCount ≤ tag → p.armFor? tag = none) ∧
        ∀ (i : Nat) (e : ArmHead) (name : String), heads[i]? = some e →
          e.pattern = .variant name → ∃! tag, p.armFor? tag = some i := by
  have htype : type.WellFormed := hr.consistent.wellFormed type ht
  refine ⟨exists_compile_iff htype, ?_⟩
  intro p h
  refine ⟨(binders_of_compile htype h).length_eq, by rw [type_of_compile h], ?_, ?_, ?_⟩
  · intro tag v hv
    obtain ⟨hlt, -⟩ := List.getElem?_eq_some_iff.mp (show type.variants[tag]? = some v from hv)
    obtain ⟨i, hi⟩ := exists_armFor? htype h hlt
    refine ⟨i, hi, ?_⟩
    rw [armFor?_of_compile htype h, hv] at hi
    exact hi
  · intro tag htag
    have hnone : type.variant? tag = none := List.getElem?_eq_none htag
    rw [armFor?_of_compile htype h, hnone]
    rfl
  · intro i e name hi hpattern
    exact existsUnique_armFor? htype h hi hpattern

/-- Arms for two of three variants, in another order than declared, and a wildcard behind them. -/
theorem compile_accepts_exactly_and_is_first_match_message :
    ∃ p, compile Registry.message
        [⟨.variant "Move", .named [("y", "down"), ("x", "_")]⟩, ⟨.variant "Quit", .ignore⟩,
          ⟨.wildcard, .whole "rest"⟩] = .ok p ∧
      p.armFor? 0 = some 1 ∧ p.armFor? 1 = some 0 ∧ p.armFor? 2 = some 2 ∧
      p.armFor? 3 = none ∧ ∃! tag, p.armFor? tag = some 0 := by
  have hregistered : Registry.message ∈ Registry.onlyMessage.types := List.mem_singleton.mpr rfl
  obtain ⟨-, hcompiled⟩ :=
    compile_accepts_exactly_and_is_first_match Registry.reachable_message hregistered
  have hp : compile Registry.message
      [⟨.variant "Move", .named [("y", "down"), ("x", "_")]⟩, ⟨.variant "Quit", .ignore⟩,
        ⟨.wildcard, .whole "rest"⟩]
      = .ok ⟨Registry.message, [1, 0, 2], [.fields [("down", 1)], .nothing, .whole "rest"]⟩ := rfl
  obtain ⟨-, -, -, hnone, hunique⟩ := hcompiled _ hp
  exact ⟨_, hp, rfl, rfl, rfl, hnone 3 (Nat.le_refl 3), hunique 0 _ "Move" rfl rfl⟩

end Plan

end TaggedUnion
