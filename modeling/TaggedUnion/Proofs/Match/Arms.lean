import TaggedUnion.Proofs.Match.Binder

/-!
# Lists of arms

What a list of arms means, and when it is well formed, said without the table that compiling it
fills.

* `ArmHead.covers`: an arm takes the values of the variant that it names, a wildcard takes all.
* `ArmHead.Admissible`: an arm may follow the arms before it.
* `EnumType.Accepts`, `EnumType.Exhausts`: the arms are well formed one by one and against each
  other, and together they leave no variant out.
* `EnumType.accepts_concat_iff`: a list is accepted exactly if each arm may follow those before it.
* `EnumType.Accepts.findIdx?_covers`: in an accepted list the first arm that covers a variant is the
  one that names it, or else the wildcard.
* `EnumType.Accepts.findIdx?_covers_eq_some_iff`: an arm that names a variant is the first to cover
  that variant, and no other.
* `EnumType.uncovered`: the variants that no arm names.
* `EnumType.Accepts.findIdx?_covers_eq_some_iff_takes`: which arm comes first, without looking at the
  order. A wildcard takes the variants that are uncovered.
* `EnumType.accepts_iff_admissible`: a list is accepted exactly if each of its arms may follow those
  before it.
-/

namespace TaggedUnion

namespace ArmHead

/-- Whether the arm takes the values of the variant of the given name. -/
def covers (h : ArmHead) (variant : String) : Bool :=
  match h.pattern with
  | .wildcard => true
  | .variant name => name == variant

/-- The shape that the arm's binder has to fit: the one declared for the variant that it names. -/
def shape? (type : EnumType) (h : ArmHead) : Option Shape :=
  match h.pattern with
  | .wildcard => none
  | .variant name => (type.variants.find? (·.name == name)).map (·.shape)

/-- An arm may follow `earlier` if no wildcard has taken everything, the variant that it names exists
and is named by no earlier arm, and its binder fits. -/
structure Admissible (type : EnumType) (earlier : List ArmHead) (h : ArmHead) : Prop where
  reachable : ∀ e ∈ earlier, e.pattern ≠ .wildcard
  known : ∀ name, h.pattern = .variant name → name ∈ type.variantNames
  fresh : ∀ name, h.pattern = .variant name → ∀ e ∈ earlier, e.pattern ≠ .variant name
  fits : h.binder.Fits (h.shape? type)

/-- Among `heads`, the arm takes the values of the variant of the given name: it names the variant, or
it is a wildcard and none of them does. -/
def Takes (heads : List ArmHead) (variant : String) (h : ArmHead) : Prop :=
  h.pattern = .variant variant ∨ h.pattern = .wildcard ∧ ∀ e ∈ heads, e.pattern ≠ .variant variant

@[simp] theorem isWildcard_iff {h : ArmHead} : h.isWildcard = true ↔ h.pattern = .wildcard := by
  simp [isWildcard]

theorem covers_iff {h : ArmHead} {variant : String} :
    h.covers variant = true ↔ h.pattern = .wildcard ∨ h.pattern = .variant variant := by
  unfold covers
  cases h.pattern <;> simp

end ArmHead

namespace EnumType

/-- The arms are well formed, one by one and against each other. -/
structure Accepts (t : EnumType) (heads : List ArmHead) : Prop where
  /-- No arm follows a wildcard. -/
  wildcard_last : heads.Pairwise fun earlier _ => earlier.pattern ≠ .wildcard
  /-- Every arm but a wildcard names a variant of the type. -/
  known : ∀ h ∈ heads, ∀ name, h.pattern = .variant name → name ∈ t.variantNames
  /-- No variant is named twice. -/
  distinct : heads.Pairwise fun earlier later =>
    ∀ name, later.pattern = .variant name → earlier.pattern ≠ .variant name
  /-- Every binder fits the variant that its arm names. -/
  fits : ∀ h ∈ heads, h.binder.Fits (h.shape? t)

/-- The arms leave no variant out. -/
def Exhausts (t : EnumType) (heads : List ArmHead) : Prop :=
  (∃ h ∈ heads, h.pattern = .wildcard) ∨
    ∀ name ∈ t.variantNames, ∃ h ∈ heads, h.pattern = .variant name

/-- The variants that no arm names, in declared order. -/
def uncovered (t : EnumType) (heads : List ArmHead) : List String :=
  t.variantNames.filter fun name => heads.all (·.pattern != .variant name)

variable {t : EnumType} {heads heads' : List ArmHead}

@[simp] theorem mem_uncovered_iff {name : String} :
    name ∈ t.uncovered heads ↔
      name ∈ t.variantNames ∧ ∀ e ∈ heads, e.pattern ≠ .variant name := by
  simp [uncovered]

/-- No variant is listed twice as uncovered, as none is declared twice. -/
theorem nodup_uncovered (h : t.variantNames.Nodup) (heads : List ArmHead) :
    (t.uncovered heads).Nodup :=
  h.filter _

/-- A list without arms is well formed. Whether it leaves a variant out is another matter. -/
theorem accepts_nil : t.Accepts [] where
  wildcard_last := .nil
  known := by simp
  distinct := .nil
  fits := by simp

/-- One more arm is accepted exactly if it may follow the others. -/
theorem accepts_concat_iff {h : ArmHead} :
    t.Accepts (heads ++ [h]) ↔ t.Accepts heads ∧ h.Admissible t heads := by
  constructor
  · intro hacc
    obtain ⟨hwildcard, hknown, hdistinct, hfits⟩ := hacc
    -- a condition on pairs splits into pairs of the earlier arms and pairs with the last one
    rw [List.pairwise_append] at hwildcard hdistinct
    refine ⟨⟨hwildcard.1, ?_, hdistinct.1, ?_⟩, ⟨?_, ?_, ?_, ?_⟩⟩
    · exact fun e he => hknown e (List.mem_append_left _ he)
    · exact fun e he => hfits e (List.mem_append_left _ he)
    · exact fun e he => hwildcard.2.2 e he h List.mem_cons_self
    · exact hknown h (List.mem_append_right _ List.mem_cons_self)
    · exact fun name hname e he => hdistinct.2.2 e he h List.mem_cons_self name hname
    · exact hfits h (List.mem_append_right _ List.mem_cons_self)
  · intro hacc
    obtain ⟨⟨hwildcard, hknown, hdistinct, hfits⟩, hadm⟩ := hacc
    have hmem : ∀ e ∈ heads ++ [h], e ∈ heads ∨ e = h := by
      intro e he
      simpa using he
    refine ⟨?_, ?_, ?_, ?_⟩
    · rw [List.pairwise_append]
      refine ⟨hwildcard, List.pairwise_singleton _ _, ?_⟩
      exact fun e he _ _ => hadm.reachable e he
    · intro e he
      rcases hmem e he with he | rfl
      · exact hknown e he
      · exact hadm.known
    · rw [List.pairwise_append]
      refine ⟨hdistinct, List.pairwise_singleton _ _, ?_⟩
      intro e he e' he'
      rw [List.mem_singleton] at he'
      subst he'
      exact fun name hname => hadm.fresh name hname e he
    · intro e he
      rcases hmem e he with he | rfl
      · exact hfits e he
      · exact hadm.fits

/-- Where no wildcard stands, covering a variant is naming it. -/
theorem findIdx?_covers_of_no_wildcard (h : ∀ e ∈ heads, e.pattern ≠ .wildcard) (variant : String) :
    heads.findIdx? (·.covers variant) = heads.findIdx? (·.pattern == .variant variant) := by
  induction heads with
  | nil => rfl
  | cons e rest ih =>
    have hcovers : e.covers variant = (e.pattern == .variant variant) := by
      rw [Bool.eq_iff_iff, ArmHead.covers_iff, beq_iff_eq]
      exact or_iff_right (h e List.mem_cons_self)
    rw [List.findIdx?_cons, List.findIdx?_cons, hcovers,
      ih fun e he => h e (List.mem_cons_of_mem _ he)]

/-- The first arm that covers a variant is the one that names it, or else the wildcard. A wildcard can
only stand last, so it comes after every arm that names something. -/
theorem Accepts.findIdx?_covers (h : t.Accepts heads) (variant : String) :
    heads.findIdx? (·.covers variant)
      = (heads.findIdx? (·.pattern == .variant variant)).or (heads.findIdx? (·.isWildcard)) := by
  cases heads using List.reverseRecOn with
  | nil => rfl
  | append_singleton earlier e =>
    have hadm := (accepts_concat_iff.mp h).2
    -- the earlier arms may not be wildcards, so only the last one can be
    have hnone : earlier.findIdx? (·.isWildcard) = none := by
      rw [List.findIdx?_eq_none_iff]
      intro e he
      simpa [ArmHead.isWildcard] using hadm.reachable e he
    rw [List.findIdx?_append, List.findIdx?_append, List.findIdx?_append, hnone,
      findIdx?_covers_of_no_wildcard hadm.reachable]
    -- what is left is the case of the last arm alone
    cases hpattern : e.pattern with
    | wildcard =>
      have hcovers : e.covers variant = true := by
        rw [ArmHead.covers, hpattern]
      have hwildcard : e.isWildcard = true := ArmHead.isWildcard_iff.mpr hpattern
      simp [List.findIdx?_cons, hcovers, hwildcard, hpattern]
    | variant name =>
      have hcovers : e.covers variant = (name == variant) := by
        rw [ArmHead.covers, hpattern]
      have hwildcard : e.isWildcard = false := by
        rw [ArmHead.isWildcard, hpattern]
        rfl
      have hbeq : (Pattern.variant name == Pattern.variant variant) = (name == variant) := by
        rw [Bool.eq_iff_iff, beq_iff_eq, beq_iff_eq]
        simp
      simp [List.findIdx?_cons, hcovers, hwildcard, hpattern, hbeq]

/-- An arm that names a variant is the first that covers that variant, and no other. Every arm before
it names something else. -/
theorem Accepts.findIdx?_covers_eq_some_iff (h : t.Accepts heads) {i : Nat} {e : ArmHead}
    (hi : heads[i]? = some e) {name : String} (hpattern : e.pattern = .variant name)
    {variant : String} : heads.findIdx? (·.covers variant) = some i ↔ variant = name := by
  obtain ⟨hlt, rfl⟩ := List.getElem?_eq_some_iff.mp hi
  have hcovers : heads[i].covers variant = (name == variant) := by
    rw [ArmHead.covers, hpattern]
  rw [List.findIdx?_eq_some_iff_getElem]
  constructor
  · intro hfirst
    obtain ⟨_, hcovered, -⟩ := hfirst
    rw [hcovers, beq_iff_eq] at hcovered
    exact hcovered.symm
  · intro heq
    subst heq
    refine ⟨hlt, by rw [hcovers, beq_self_eq_true], ?_⟩
    -- an earlier arm that covers the name would break one of the two conditions on pairs
    intro j hji hcovered
    have hj : j < heads.length := Nat.lt_trans hji hlt
    rcases ArmHead.covers_iff.mp hcovered with hwildcard | hnames
    · exact List.pairwise_iff_getElem.mp h.wildcard_last j i hj hlt hji hwildcard
    · exact List.pairwise_iff_getElem.mp h.distinct j i hj hlt hji variant hpattern hnames

/-- The first arm that covers a variant is the one that takes it, wherever it stands. -/
theorem Accepts.findIdx?_covers_eq_some_iff_takes (h : t.Accepts heads) {i : Nat} {e : ArmHead}
    (hi : heads[i]? = some e) {variant : String} :
    heads.findIdx? (·.covers variant) = some i ↔ e.Takes heads variant := by
  unfold ArmHead.Takes
  cases hpattern : e.pattern with
  | variant name =>
    rw [h.findIdx?_covers_eq_some_iff hi hpattern]
    simp [eq_comm]
  | wildcard =>
    obtain ⟨hlt, rfl⟩ := List.getElem?_eq_some_iff.mp hi
    simp only [reduceCtorEq, true_and, false_or]
    constructor
    · intro hfirst e he hnames
      -- an arm that names the variant would be the first itself
      obtain ⟨j, hj⟩ := List.mem_iff_getElem?.mp he
      have hother := (h.findIdx?_covers_eq_some_iff hj hnames).mpr rfl
      obtain rfl : i = j := Option.some.inj (hfirst.symm.trans hother)
      rw [hi] at hj
      cases hj
      rw [hpattern] at hnames
      cases hnames
    · -- no arm names the variant, and no wildcard stands before this one
      intro hnone
      rw [List.findIdx?_eq_some_iff_getElem]
      refine ⟨hlt, ArmHead.covers_iff.mpr (.inl hpattern), ?_⟩
      intro j hji hcovered
      have hj : j < heads.length := Nat.lt_trans hji hlt
      rcases ArmHead.covers_iff.mp hcovered with hwildcard | hnames
      · exact List.pairwise_iff_getElem.mp h.wildcard_last j i hj hlt hji hwildcard
      · exact hnone _ (List.getElem_mem hj) hnames

/-- What some arm comes to with the arms before it: one of the first arms, or the last. -/
theorem exists_arm_concat_iff {P : List ArmHead → ArmHead → Prop} {earlier : List ArmHead}
    {last : ArmHead} :
    (∃ (i : Nat) (h : ArmHead),
        (earlier ++ [last])[i]? = some h ∧ P ((earlier ++ [last]).take i) h) ↔
      (∃ (i : Nat) (h : ArmHead), earlier[i]? = some h ∧ P (earlier.take i) h) ∨ P earlier last := by
  constructor
  · rintro ⟨i, h, hi, hP⟩
    -- the arms before a position are the same in both lists
    by_cases hlt : i < earlier.length
    · rw [List.getElem?_append_left hlt] at hi
      rw [List.take_append_of_le_length (by omega)] at hP
      exact .inl ⟨i, h, hi, hP⟩
    · obtain ⟨hle, -⟩ := List.getElem?_eq_some_iff.mp hi
      rw [List.length_append, List.length_singleton] at hle
      obtain rfl : i = earlier.length := by omega
      rw [List.getElem?_concat_length] at hi
      cases hi
      rw [List.take_left] at hP
      exact .inr hP
  · rintro (⟨i, h, hi, hP⟩ | hP)
    · obtain ⟨hlt, -⟩ := List.getElem?_eq_some_iff.mp hi
      refine ⟨i, h, by rw [List.getElem?_append_left hlt, hi], ?_⟩
      rw [List.take_append_of_le_length (by omega)]
      exact hP
    · refine ⟨earlier.length, last, List.getElem?_concat_length, ?_⟩
      rw [List.take_left]
      exact hP

/-- Induction on the last arm: the step is `accepts_concat_iff`. -/
theorem accepts_iff_admissible :
    t.Accepts heads ↔
      ∀ (i : Nat) (h : ArmHead), heads[i]? = some h → h.Admissible t (heads.take i) := by
  have hnot : t.Accepts heads ↔
      ¬ ∃ (i : Nat) (h : ArmHead), heads[i]? = some h ∧ ¬ h.Admissible t (heads.take i) := by
    induction heads using List.reverseRecOn with
    | nil => simp [accepts_nil]
    | append_singleton earlier last ih =>
      rw [accepts_concat_iff, ih, exists_arm_concat_iff (P := fun earlier h => ¬ h.Admissible t earlier),
        not_or, not_not]
  simpa only [not_exists, not_and, not_not] using hnot

/-! ## Rearranged lists -/

/-- But for the place of a wildcard, the order of arms does not matter. -/
theorem Accepts.perm (h : t.Accepts heads) (hperm : heads'.Perm heads)
    (hlast : heads'.Pairwise fun earlier _ => earlier.pattern ≠ .wildcard) : t.Accepts heads' where
  wildcard_last := hlast
  known e he := h.known e (hperm.mem_iff.mp he)
  distinct := by
    -- to name different variants is a symmetric relation, so the order is free
    refine hperm.symm.pairwise h.distinct ?_
    intro a b hab name hname hname'
    exact hab name hname' hname
  fits e he := h.fits e (hperm.mem_iff.mp he)

/-- What a list of arms leaves out does not depend on their order. -/
theorem exhausts_perm_iff (hperm : heads'.Perm heads) : t.Exhausts heads' ↔ t.Exhausts heads := by
  simp only [Exhausts, hperm.mem_iff]

/-- The uncovered variants come in declared order, whatever the order of the arms. -/
theorem uncovered_perm (hperm : heads'.Perm heads) : t.uncovered heads' = t.uncovered heads := by
  refine List.filter_congr fun name _ => ?_
  rw [Bool.eq_iff_iff, List.all_eq_true, List.all_eq_true]
  simp only [hperm.mem_iff]

end EnumType

end TaggedUnion
