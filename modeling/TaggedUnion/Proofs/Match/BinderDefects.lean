import TaggedUnion.Proofs.Match.Binder
import TaggedUnion.Proofs.Scan

/-!
# What is reported of a rejected binder

A binder can fail to fit in many ways at once: it may name fields of a variant that has none, leave a field
out, and give one name to two fields. One of these is reported, and which one is said here of the binder and
of the declared shape alone.

* `Binder.PairDefect`: what is wrong with one pair of a field and its name, given the pairs before it.
* `Binder.Unfit`: what is reported of a binder.
* `namedPlaces_eq_error_iff`: the scan of the pairs, by induction along it. The fields that it has seen are
  those of the pairs passed.
* `distinctPlaces_eq_error_iff`: the scan for a name given twice, which does not see the placeholder.
* `Binder.resolve_of_unfit`, `Binder.unfit_of_resolve`: `Unfit` is what resolving a binder reports.
* `Binder.resolve_reports_first_defect`: the same for variants that pass the checks of registration, where
  something is reported exactly of the binders that do not fit.
-/

namespace TaggedUnion

namespace Binder

/-- What is wrong with a pair behind the pairs `earlier`: its field is not declared, or has a name already.
Whether that name is the placeholder makes no difference. -/
inductive PairDefect (declared : List Field) (earlier : List (String × String))
    (pair : String × String) : BinderIssue → Prop
  | unknown (hunknown : pair.1 ∉ declared.map (·.name)) :
      PairDefect declared earlier pair (.unknownField pair.1)
  | repeated (hdeclared : pair.1 ∈ declared.map (·.name)) (hearlier : pair.1 ∈ earlier.map (·.1)) :
      PairDefect declared earlier pair (.duplicateField pair.1)

/-- What is reported of a binder for the shape of the variant that its arm names, or for the lack of one at a
wildcard. A name given twice is reported last, when nothing is wrong with the fields. -/
inductive Unfit : Binder → Option Shape → BinderIssue → Prop
  -- names for fields where there are none of the kind
  | positionalOfWildcard {names : List String} : Unfit (.positional names) none .wildcardFields
  | namedOfWildcard {pairs : List (String × String)} : Unfit (.named pairs) none .wildcardFields
  | positionalOfKind {names : List String} {s : Shape} (hkind : s.kind ≠ .positional) :
      Unfit (.positional names) (some s) (.positionalOnNonPositional s.kind)
  | namedOfKind {pairs : List (String × String)} {s : Shape} (hkind : s.kind ≠ .named) :
      Unfit (.named pairs) (some s) (.namedOnNonNamed s.kind)
  -- names for other fields than those declared
  | arity {names : List String} {types : List FieldType} (hlen : names.length ≠ types.length) :
      Unfit (.positional names) (some (.positional types))
        (.positionalArity types.length names.length)
  | pair {pairs : List (String × String)} {declared : List Field} {issue : BinderIssue}
      (hfirst : FirstDefect (PairDefect declared) [] pairs issue) :
      Unfit (.named pairs) (some (.named declared)) issue
  | missing {pairs : List (String × String)} {declared : List Field} {field : Field}
      (hpairs : ∀ issue, ¬ FirstDefect (PairDefect declared) [] pairs issue)
      (hfirst : declared.find? (·.name ∉ pairs.map (·.1)) = some field) :
      Unfit (.named pairs) (some (.named declared)) (.missingField field.name)
  -- the same name for two fields
  | positionalRepeat {names : List String} {types : List FieldType} {name : String}
      (hlen : names.length = types.length)
      (hrepeat : Text.FirstRepeat (names.filter (· != placeholder)) name) :
      Unfit (.positional names) (some (.positional types)) (.duplicateBinding name)
  | namedRepeat {pairs : List (String × String)} {declared : List Field} {name : String}
      (hpairs : ∀ issue, ¬ FirstDefect (PairDefect declared) [] pairs issue)
      (hall : ∀ field ∈ declared, field.name ∈ pairs.map (·.1))
      (hrepeat : Text.FirstRepeat ((pairs.map (·.2)).filter (· != placeholder)) name) :
      Unfit (.named pairs) (some (.named declared)) (.duplicateBinding name)

end Binder

open Binder (PairDefect Unfit)

/-! ## The scans -/

section Scans

variable {declared : List Field} {pairs : List (String × String)} {issue : BinderIssue}

/-- A pair's field is looked up among the declared ones before it is looked up among those seen. -/
theorem pairDefect_iff {earlier : List (String × String)} {field name : String} :
    PairDefect declared earlier (field, name) issue ↔
      (declared.findIdx? (·.name == field) = none ∧ issue = .unknownField field) ∨
      ∃ position, declared.findIdx? (·.name == field) = some position ∧
        field ∈ earlier.map (·.1) ∧ issue = .duplicateField field := by
  have hnone : declared.findIdx? (·.name == field) = none ↔ field ∉ declared.map (·.name) := by
    simp [List.findIdx?_eq_none_iff]
  have hsome : (∃ position, declared.findIdx? (·.name == field) = some position) ↔
      field ∈ declared.map (·.name) := by
    rw [← Option.ne_none_iff_exists', ne_eq, hnone, not_not]
  rw [hnone, exists_and_right, hsome]
  constructor
  · intro h
    cases h with
    | unknown hunknown => exact .inl ⟨hunknown, rfl⟩
    | repeated hdeclared hearlier => exact .inr ⟨hdeclared, hearlier, rfl⟩
  · rintro (⟨hunknown, rfl⟩ | ⟨hdeclared, hearlier, rfl⟩)
    · exact .unknown hunknown
    · exact .repeated hdeclared hearlier

/-- Settling places fails for the first pair with which something is wrong. Induction on the pairs; the
fields seen grow with those passed. -/
theorem namedPlaces_eq_error_iff {seen : List String} {earlier : List (String × String)}
    (hseen : ∀ field, field ∈ seen ↔ field ∈ earlier.map (·.1)) :
    namedPlaces declared seen pairs = .error issue ↔
      FirstDefect (PairDefect declared) earlier pairs issue := by
  induction pairs generalizing seen earlier with
  | nil => simp [namedPlaces, not_firstDefect_nil]
  | cons pair rest ih =>
    obtain ⟨field, name⟩ := pair
    -- past this pair, its field is among those seen
    have hrest := ih (mem_seen_concat_iff hseen (field, name))
    rw [namedPlaces, firstDefect_cons_iff, ← hrest]
    simp only [pairDefect_iff, ← hseen]
    cases declared.findIdx? (·.name == field) with
    | none => simp [@eq_comm _ issue]
    | some position =>
      by_cases hfield : field ∈ seen
      · simp [hfield, @eq_comm _ issue]
      · simp [hfield, map_eq_error_iff]

/-- Whatever place they have, names are compared in their order, and the placeholder is none of them. -/
theorem distinctPlaces_eq_error_iff {places : List (String × Nat)} :
    distinctPlaces places = .error issue ↔
      ∃ name, Text.FirstRepeat ((places.map (·.1)).filter (· != placeholder)) name ∧
        issue = .duplicateBinding name := by
  simp only [← Text.firstRepeat?_eq_some_iff]
  unfold distinctPlaces
  dsimp only
  rw [filter_map_fst (· != placeholder)]
  cases Text.firstRepeat? ((places.map (·.1)).filter (· != placeholder)) with
  | none => simp
  | some name => simp [@eq_comm _ issue]

end Scans

/-! ## Resolving -/

namespace Binder

variable {b : Binder} {shape : Option Shape} {pairs : List (String × String)}
  {declared : List Field} {issue : BinderIssue}

/-- The scan of the pairs from the first one on. -/
theorem namedPlaces_nil_eq_error_iff :
    namedPlaces declared [] pairs = .error issue ↔
      FirstDefect (PairDefect declared) [] pairs issue :=
  namedPlaces_eq_error_iff (by simp)

/-- A scan that finds nothing wrong settles the places, and they have the names of the pairs. -/
theorem exists_namedPlaces (h : ∀ issue, ¬ FirstDefect (PairDefect declared) [] pairs issue) :
    ∃ places, namedPlaces declared [] pairs = .ok places ∧ places.map (·.1) = pairs.map (·.2) := by
  cases hplaces : namedPlaces declared [] pairs with
  | error e => exact absurd (namedPlaces_nil_eq_error_iff.mp hplaces) (h e)
  | ok places => exact ⟨places, rfl, map_fst_of_placed (namedPlaces_eq_ok_iff.mp hplaces).1⟩

/-- What is left to check once the places are settled: that no field is left out, and the names. -/
theorem resolve_named_of_places {places : List (String × Nat)}
    (h : namedPlaces declared [] pairs = .ok places) :
    (named pairs).resolve (some (.named declared)) =
      match declared.find? (·.name ∉ pairs.map (·.1)) with
      | some field => .error (.missingField field.name)
      | none => distinctPlaces places := by
  rw [resolve, h]
  rfl

/-- What is wrong with a binder is reported. One case for each thing that can be wrong. -/
theorem resolve_of_unfit (h : b.Unfit shape issue) : b.resolve shape = .error issue := by
  cases h with
  | positionalOfWildcard => rfl
  | namedOfWildcard => rfl
  | @positionalOfKind names s hkind => cases s <;> first | rfl | exact absurd rfl hkind
  | @namedOfKind pairs s hkind => cases s <;> first | rfl | exact absurd rfl hkind
  | arity hlen => rw [resolve, if_pos hlen]
  | pair hfirst =>
    rw [resolve, namedPlaces_nil_eq_error_iff.mpr hfirst]
    rfl
  | missing hpairs hfirst =>
    obtain ⟨places, hplaces, -⟩ := exists_namedPlaces hpairs
    rw [resolve_named_of_places hplaces, hfirst]
  | positionalRepeat hlen hrepeat =>
    rw [resolve, if_neg (not_not.mpr hlen), distinctPlaces_eq_error_iff, List.zipIdx_map_fst]
    exact ⟨_, hrepeat, rfl⟩
  | @namedRepeat pairs declared name hpairs hall hrepeat =>
    -- the scan has settled the places and no field is left out, so the names decide
    obtain ⟨places, hplaces, hnames⟩ := exists_namedPlaces hpairs
    have hnone : declared.find? (fun field => decide (field.name ∉ pairs.map (·.1))) = none := by
      simpa using hall
    rw [resolve_named_of_places hplaces, hnone]
    show distinctPlaces places = _
    rw [distinctPlaces_eq_error_iff, hnames]
    exact ⟨_, hrepeat, rfl⟩

/-- By position, the number of names is checked before the names. -/
theorem unfit_of_resolve_positional {names : List String} {types : List FieldType}
    (h : (positional names).resolve (some (.positional types)) = .error issue) :
    (positional names).Unfit (some (.positional types)) issue := by
  rw [resolve] at h
  by_cases hlen : names.length = types.length
  · rw [if_neg (not_not.mpr hlen), distinctPlaces_eq_error_iff, List.zipIdx_map_fst] at h
    obtain ⟨name, hrepeat, rfl⟩ := h
    exact .positionalRepeat hlen hrepeat
  · rw [if_pos hlen] at h
    cases h
    exact .arity hlen

/-- By name, the pairs are checked first, then whether they leave a field out, and the names last. -/
theorem unfit_of_resolve_named
    (h : (named pairs).resolve (some (.named declared)) = .error issue) :
    (named pairs).Unfit (some (.named declared)) issue := by
  by_cases hpairs : ∀ issue, ¬ FirstDefect (PairDefect declared) [] pairs issue
  · obtain ⟨places, hplaces, hnames⟩ := exists_namedPlaces hpairs
    rw [resolve_named_of_places hplaces] at h
    cases hfind : declared.find? (fun field => decide (field.name ∉ pairs.map (·.1))) with
    | some field =>
      rw [hfind] at h
      cases h
      exact .missing hpairs hfind
    | none =>
      have hall : ∀ field ∈ declared, field.name ∈ pairs.map (·.1) := by simpa using hfind
      rw [hfind] at h
      obtain ⟨name, hrepeat, rfl⟩ := distinctPlaces_eq_error_iff.mp h
      rw [hnames] at hrepeat
      exact .namedRepeat hpairs hall hrepeat
  · -- the scan stops at the pair that is wrong
    obtain ⟨e, hfirst⟩ : ∃ e, FirstDefect (PairDefect declared) [] pairs e := by
      simpa using hpairs
    rw [resolve_of_unfit (.pair hfirst)] at h
    cases h
    exact .pair hfirst

/-- What is reported of a binder is wrong with it. The cases follow the kinds of binder and shape. -/
theorem unfit_of_resolve (h : b.resolve shape = .error issue) : b.Unfit shape issue := by
  cases b with
  | ignore => cases h
  | whole name => cases h
  | positional names =>
    cases shape with
    | none => cases h; exact .positionalOfWildcard
    | some s =>
      cases s with
      | unit => cases h; exact .positionalOfKind nofun
      | named declared => cases h; exact .positionalOfKind nofun
      | positional types => exact unfit_of_resolve_positional h
  | named pairs =>
    cases shape with
    | none => cases h; exact .namedOfWildcard
    | some s =>
      cases s with
      | unit => cases h; exact .namedOfKind nofun
      | positional types => cases h; exact .namedOfKind nofun
      | named declared => exact unfit_of_resolve_named h

/-- A rejected binder is reported by its first defect. A binder is rejected exactly if it does not fit
the variant, or the wildcard, of its arm; and what is reported is settled by the binder and the declared
shape, in the order of `Unfit`: that there are no fields of the kind; how many there are, or the first
pair with a field that is not declared or listed before; the first declared field that no pair lists;
and only then the first name that occurred earlier. -/
theorem resolve_reports_first_defect {type : String} {variant : Option Variant}
    (hvalid : ∀ v ∈ variant, v.check type = .ok ()) (b : Binder) :
    ((∃ issue, b.resolve (variant.map (·.shape)) = .error issue) ↔
      ¬ b.Fits (variant.map (·.shape))) ∧
    ∀ issue, b.resolve (variant.map (·.shape)) = .error issue ↔
      b.Unfit (variant.map (·.shape)) issue := by
  have hwf : ∀ s, variant.map (·.shape) = some s → s.WellFormed := by
    intro s hs
    obtain ⟨v, hv, rfl⟩ := Option.map_eq_some_iff.mp hs
    exact (Variant.check_eq_ok_iff.mp (hvalid v hv)).shape
  refine ⟨?_, fun issue => ⟨unfit_of_resolve, resolve_of_unfit⟩⟩
  rw [← exists_resolve_iff hwf]
  cases b.resolve (variant.map (·.shape)) with
  | ok rb => simp
  | error issue => simp

/-- Three binders for a move. In the first a field is listed twice, `y` is left out and a name is given twice,
but before all this comes a field that is not declared. In the second `y` is listed, although it gets no name,
so that `x` is missing. In the third only the names are wrong. -/
theorem resolve_reports_first_defect_move :
    let move : Variant := ⟨"Move", .named [⟨"x", .scalar .int⟩, ⟨"y", .scalar .int⟩]⟩
    move.check "Message" = .ok () ∧
      (named [("x", "a"), ("z", "a"), ("x", "_")]).Unfit (some move.shape) (.unknownField "z") ∧
      (named [("y", "_")]).Unfit (some move.shape) (.missingField "x") ∧
      (named [("y", "a"), ("x", "a")]).Unfit (some move.shape) (.duplicateBinding "a") ∧
      ¬ (named [("y", "a"), ("x", "a")]).Fits (some move.shape) := by
  intro move
  have hcheck : move.check "Message" = .ok () := rfl
  have hvalid : ∀ v ∈ some move, v.check "Message" = .ok () := by
    rintro v ⟨⟩
    exact hcheck
  have hreports := resolve_reports_first_defect hvalid
  have hrepeat : (named [("y", "a"), ("x", "a")]).resolve (some move.shape)
      = .error (.duplicateBinding "a") := rfl
  exact ⟨hcheck, ((hreports _).2 _).mp rfl, ((hreports _).2 _).mp rfl, ((hreports _).2 _).mp hrepeat,
    (hreports _).1.mp ⟨_, hrepeat⟩⟩

end Binder

end TaggedUnion
