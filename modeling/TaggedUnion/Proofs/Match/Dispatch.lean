import TaggedUnion.Proofs.Match.Cache

/-!
# Running a plan

A plan sends a well-formed value to one body. Nothing on the way can go wrong: the table has an entry
for the tag, the entry is an arm of the list, and the arm's binder was resolved against the variant
that the value holds.

* `ArmHead.shape?_of_covers`: an arm that covers a value was checked against the value's shape.
* `EnumValue.value_of_binds`: whatever a binder asks for is the value itself or one of its fields.
* `Plan.exists_run`: the body that runs is that of the first arm that covers the value, and it gets
  what the binder of this arm asks for.
* `Matcher.evaluate_cases`: all that matching a value can come to.
-/

namespace TaggedUnion

/-- An arm that names the variant of a value was checked against the shape of the value. -/
theorem ArmHead.shape?_of_pattern {v : EnumValue} (hnames : v.type.variantNames.Nodup) {h : ArmHead}
    (hpattern : h.pattern = .variant v.variantName) : h.shape? v.type = some v.variant.shape := by
  have hfind : v.type.variants.find? (·.name == v.variantName) = some v.variant :=
    find?_eq_some_of_nodup hnames (List.getElem_mem _)
  unfold shape?
  rw [hpattern]
  dsimp only
  rw [hfind]
  rfl

/-- An arm that covers a value is a wildcard, or its binder has to fit the shape of the value. -/
theorem ArmHead.shape?_of_covers {v : EnumValue} (hnames : v.type.variantNames.Nodup) {h : ArmHead}
    (hcovers : h.covers v.variantName = true) {s : Shape} (hs : h.shape? v.type = some s) :
    s = v.variant.shape := by
  rcases ArmHead.covers_iff.mp hcovers with hpattern | hpattern
  · rw [Coverage.shape?_of_wildcard hpattern] at hs
    cases hs
  · rw [shape?_of_pattern hnames hpattern] at hs
    exact (Option.some.inj hs).symm

/-- What a binder asks for on a well-formed value is the value or one of its fields, so it is well
formed as well. -/
theorem EnumValue.value_of_binds {r : Registry} {v : EnumValue} (hv : v.WellFormed r) {b : Binder}
    {entries : List (String × Value)} (hbinds : b.Binds v entries) :
    ∀ entry ∈ entries, entry.2.WellFormed r := by
  have hfield : ∀ (i : Nat) (x : Value), v.fields[i]? = some x → x.WellFormed r :=
    fun i x hx => hv.value (List.mem_of_getElem? hx)
  intro entry hentry
  -- a binder gives a name to the whole value, or to stored fields
  cases b with
  | ignore =>
    have hnil : entries = [] := hbinds
    rw [hnil] at hentry
    cases hentry
  | whole name =>
    have hwhole : entries = if name = placeholder then [] else [(name, .enum v)] := hbinds
    by_cases hname : name = placeholder
    · rw [hwhole, if_pos hname] at hentry
      cases hentry
    · rw [hwhole, if_neg hname] at hentry
      rw [List.mem_singleton.mp hentry]
      exact Value.wellFormed_enum hv
  | positional names =>
    obtain ⟨i, hi, rfl⟩ := List.mem_iff_getElem.mp hentry
    have hall : List.Forall₂ _ entries _ := hbinds
    exact hfield _ _ (hall.get hi (hall.length_eq ▸ hi)).2
  | named pairs =>
    obtain ⟨i, hi, rfl⟩ := List.mem_iff_getElem.mp hentry
    have hall : List.Forall₂ _ entries _ := hbinds
    obtain ⟨-, _, j, -, -, hj⟩ := hall.get hi (hall.length_eq ▸ hi)
    exact hfield j _ hj

namespace Plan

variable {R : Type} {r : Registry} {v : EnumValue} {arms : List (Arm R)} {p : Plan}

theorem getElem?_map_head {i : Nat} {arm : Arm R} (h : arms[i]? = some arm) :
    (arms.map (·.head))[i]? = some arm.head := by
  rw [List.getElem?_map, h]
  rfl

/-- The entry for the tag of a value is the first arm that covers the variant held. -/
theorem armFor?_tag (htype : v.type.WellFormed) (hp : compile v.type (arms.map (·.head)) = .ok p) :
    p.armFor? v.tag = arms.findIdx? (·.head.covers v.variantName) := by
  have hvariant : v.type.variant? v.tag = some v.variant := List.getElem?_eq_getElem v.tag.isLt
  rw [armFor?_of_compile htype hp, hvariant, Option.bind_some, List.findIdx?_map]
  rfl

/-- A plan runs one body on a well-formed value: that of the first arm that covers the value, on what
the binder of this arm asks for. -/
theorem exists_run (hr : r.Consistent) (hv : v.WellFormed r)
    (hp : compile v.type (arms.map (·.head)) = .ok p) :
    ∃ i arm entries, p.armFor? v.tag = some i ∧ arms[i]? = some arm ∧
      arms.findIdx? (·.head.covers v.variantName) = some i ∧
      p.bind i v = .ok ⟨v.variantName, entries⟩ ∧ arm.head.binder.Binds v entries ∧
      p.run v arms = .ok (arm.body ⟨v.variantName, entries⟩) := by
  have htype : v.type.WellFormed := hr.wellFormed _ hv.registered
  -- the entry of the table
  obtain ⟨i, hentry⟩ := exists_armFor? htype hp v.tag.isLt
  have hfirst := hentry
  rw [armFor?_tag htype hp] at hfirst
  obtain ⟨hlt, hcovers, -⟩ := List.findIdx?_eq_some_iff_getElem.mp hfirst
  have harm : arms[i]? = some arms[i] := List.getElem?_eq_getElem hlt
  -- its binder, resolved against the shape of the value
  obtain ⟨rb, hrb, hresolve⟩ := exists_resolve_of_compile htype hp (getElem?_map_head harm)
  have hshape : ∀ s, arms[i].head.shape? v.type = some s → s = v.variant.shape :=
    fun s hs => ArmHead.shape?_of_covers htype.names_nodup hcovers hs
  obtain ⟨entries, hbind, hbinds⟩ := Binder.exists_bind_of_resolve hr hv hshape hresolve hrb
  refine ⟨i, arms[i], entries, hentry, harm, hfirst, hbind, hbinds, ?_⟩
  unfold run
  rw [hentry]
  dsimp only
  rw [harm]
  dsimp only
  rw [hbind]
  rfl

end Plan

namespace Matcher

variable {R : Type} {r : Registry} {m : Matcher} {v : EnumValue}

/-- Matching a value comes to the error of compiling the arms, or to one body. -/
theorem evaluate_cases (hr : r.Consistent) (hm : m.Sound r) (hv : v.WellFormed r)
    (arms : List (Arm R)) :
    (∃ e, Plan.compile v.type (arms.map (·.head)) = .error e ∧
        (m.evaluate v arms).1 = .error e) ∨
      ∃ i arm entries, arms[i]? = some arm ∧ arm.head.binder.Binds v entries ∧
        arms.findIdx? (·.head.covers v.variantName) = some i ∧
        (m.evaluate v arms).1 = .ok (arm.body ⟨v.variantName, entries⟩) := by
  rw [answer_evaluate_of_sound hr hm hv.registered]
  cases hp : Plan.compile v.type (arms.map (·.head)) with
  | error e => exact .inl ⟨e, rfl, rfl⟩
  | ok p =>
    obtain ⟨i, arm, entries, -, harm, hfirst, -, hbinds, hrun⟩ := Plan.exists_run hr hv hp
    exact .inr ⟨i, arm, entries, harm, hbinds, hfirst, hrun⟩

end Matcher

end TaggedUnion
