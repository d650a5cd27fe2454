import TaggedUnion.Proofs.Match.Defects

/-!
# Completing a list of arms

A list of arms that leaves variants out is rejected, and the report lists them. With a wildcard behind it
the list is accepted. The report and the table are made apart from each other; here is that they agree on
what is left out.

* `ArmHead.catchAll`: the wildcard that completes a list.
* `EnumType.FirstDefect.of_completed`: it is no defect, wherever the list has its first one.
* `EnumType.exhausts_iff_uncovered_eq_nil`: nothing has to be completed if nothing is uncovered.
* `Plan.LeavesOut`: the variants that compiling reports as missing, none for a list that is accepted.
* `Plan.armFor?_completed`: the arm for each tag, once the list is completed.
* `Plan.missing_is_what_a_wildcard_takes`: the variants reported are those that the wildcard takes.
-/

namespace TaggedUnion

/-- The wildcard that binds nothing. -/
def ArmHead.catchAll : ArmHead :=
  ⟨.wildcard, .ignore⟩

variable {type : EnumType} {heads : List ArmHead}

/-- Behind arms that all name variants a wildcard is in its place. -/
theorem ArmHead.admissible_catchAll (hnamed : ∀ h ∈ heads, h.pattern ≠ .wildcard) :
    catchAll.Admissible type heads where
  reachable := hnamed
  known := by simp [catchAll]
  fresh := by simp [catchAll]
  fits := trivial

namespace EnumType

/-- A wildcard behind arms that name variants is no reason to reject them. -/
theorem accepts_completed_iff (hnamed : ∀ h ∈ heads, h.pattern ≠ .wildcard) :
    type.Accepts (heads ++ [.catchAll]) ↔ type.Accepts heads := by
  rw [accepts_concat_iff]
  exact and_iff_left (ArmHead.admissible_catchAll hnamed)

theorem exhausts_completed : type.Exhausts (heads ++ [.catchAll]) :=
  .inl ⟨.catchAll, by simp, rfl⟩

/-- The wildcard is not what is reported: the first defect is one of the list without it. -/
theorem FirstDefect.of_completed (htype : type.WellFormed)
    (hnamed : ∀ h ∈ heads, h.pattern ≠ .wildcard) {e : MatchError}
    (h : type.FirstDefect (heads ++ [.catchAll]) e) : type.FirstDefect heads e := by
  rw [← Coverage.foldlM_eq_error_iff_firstDefect htype, Coverage.foldlM_eq_error_iff htype] at h ⊢
  rw [exists_arm_concat_iff (P := fun earlier h => type.Accepts earlier ∧ h.Defect type earlier e)]
    at h
  -- the defect is one of an arm before the wildcard, or of the wildcard, which has none
  rcases h with hbefore | ⟨-, hdefect⟩
  · exact hbefore
  · exact absurd (ArmHead.admissible_catchAll hnamed) (hdefect.not_admissible htype)

/-- Arms that name variants leave none out if none is uncovered. -/
theorem exhausts_iff_uncovered_eq_nil (hnamed : ∀ h ∈ heads, h.pattern ≠ .wildcard) :
    type.Exhausts heads ↔ type.uncovered heads = [] := by
  have hno : ¬ ∃ h ∈ heads, h.pattern = .wildcard := by
    rintro ⟨h, hh, hpattern⟩
    exact hnamed h hh hpattern
  rw [Exhausts, or_iff_right hno, List.eq_nil_iff_forall_not_mem]
  simp

end EnumType

namespace Plan

/-! ## What is left out -/

/-- The variants `missing` are reported as left out. An accepted list leaves none out. -/
def LeavesOut (type : EnumType) (heads : List ArmHead) (missing : List String) : Prop :=
  (∃ p, compile type heads = .ok p) ∧ missing = [] ∨
    compile type heads = .error (.nonExhaustive type.name missing)

/-- What is reported as left out of a well-formed list are the variants that no arm names. -/
theorem leavesOut_iff (htype : type.WellFormed) (hnamed : ∀ h ∈ heads, h.pattern ≠ .wildcard)
    {missing : List String} :
    LeavesOut type heads missing ↔ type.Accepts heads ∧ missing = type.uncovered heads := by
  unfold LeavesOut
  rw [exists_compile_iff htype, EnumType.exhausts_iff_uncovered_eq_nil hnamed,
    compile_eq_nonExhaustive_iff htype]
  by_cases hnone : type.uncovered heads = []
  · simp [hnone]
  · simpa [hnone] using fun _ _ => hnamed

/-- A list leaves something out, or nothing, if it is accepted or rejected for missing variants. -/
theorem exists_leavesOut_iff (htype : type.WellFormed) :
    (∃ missing, LeavesOut type heads missing) ↔
      (∃ p, compile type heads = .ok p) ∨
        ∃ name missing, compile type heads = .error (.nonExhaustive name missing) := by
  constructor
  · rintro ⟨missing, ⟨haccepted, -⟩ | hrejected⟩
    · exact .inl haccepted
    · exact .inr ⟨_, missing, hrejected⟩
  · rintro (haccepted | ⟨name, missing, hrejected⟩)
    · exact ⟨[], .inl ⟨haccepted, rfl⟩⟩
    · obtain ⟨-, -, -, rfl, -⟩ := (compile_eq_nonExhaustive_iff htype).mp hrejected
      exact ⟨missing, .inr hrejected⟩

/-- A list can be completed exactly if nothing is reported of it but variants that are left out. -/
theorem exists_compile_completed_iff (htype : type.WellFormed)
    (hnamed : ∀ h ∈ heads, h.pattern ≠ .wildcard) :
    (∃ q, compile type (heads ++ [.catchAll]) = .ok q) ↔ ∃ missing, LeavesOut type heads missing := by
  rw [exists_compile_iff htype, and_iff_left EnumType.exhausts_completed,
    EnumType.accepts_completed_iff hnamed]
  simp only [leavesOut_iff htype hnamed, exists_and_left, exists_eq, and_true]

/-- A completed list is rejected for the first defect of the list itself. -/
theorem compile_completed_eq_error_iff (htype : type.WellFormed)
    (hnamed : ∀ h ∈ heads, h.pattern ≠ .wildcard) {e : MatchError} :
    compile type (heads ++ [.catchAll]) = .error e ↔ type.FirstDefect heads e := by
  rw [compile_eq_error_iff htype]
  constructor
  · rintro (hfirst | ⟨-, hno, -⟩)
    · exact hfirst.of_completed htype hnamed
    · exact absurd rfl (hno .catchAll (by simp))
  · intro hfirst
    exact .inl (hfirst.append _)

/-! ## What the wildcard takes -/

/-- The arm for a variant is the one that names it, or else the wildcard behind all of them, which is the
place that `findIdx` gives for a search without success. -/
theorem armFor?_completed (htype : type.WellFormed) (hnamed : ∀ h ∈ heads, h.pattern ≠ .wildcard)
    {q : Plan} (hq : compile type (heads ++ [.catchAll]) = .ok q) (tag : Nat) :
    q.armFor? tag
      = (type.variant? tag).map fun v => heads.findIdx (·.pattern == .variant v.name) := by
  rw [armFor?_of_compile htype hq]
  cases type.variant? tag with
  | none => rfl
  | some v =>
    have htakes : ArmHead.catchAll.covers v.name = true := rfl
    rw [Option.bind_some, Option.map_some, Coverage.findIdx?_concat,
      EnumType.findIdx?_covers_of_no_wildcard hnamed, if_pos htakes, List.findIdx_eq_getD_findIdx?]
    cases heads.findIdx? (·.pattern == .variant v.name) <;> rfl

/-- The search for the arm of a variant runs to the end if no arm names it. -/
theorem findIdx_eq_length_iff {name : String} :
    heads.findIdx (·.pattern == .variant name) = heads.length ↔
      ∀ h ∈ heads, h.pattern ≠ .variant name := by
  simp

/-- A search that does not run to the end stops at an arm that names the variant. -/
theorem exists_arm_at_findIdx {name : String}
    (hne : heads.findIdx (·.pattern == .variant name) ≠ heads.length) :
    ∃ h, heads[heads.findIdx (·.pattern == .variant name)]? = some h ∧
      h.pattern = .variant name := by
  have hlt : heads.findIdx (·.pattern == .variant name) < heads.length :=
    lt_of_le_of_ne List.findIdx_le_length hne
  have hnames : (heads[heads.findIdx (·.pattern == .variant name)].pattern == .variant name) = true :=
    List.findIdx_getElem (p := fun h : ArmHead => h.pattern == .variant name) (w := hlt)
  exact ⟨_, List.getElem?_eq_getElem hlt, beq_iff_eq.mp hnames⟩

/-- The wildcard takes the variants that no arm names. -/
theorem armFor?_completed_eq_length_iff (htype : type.WellFormed)
    (hnamed : ∀ h ∈ heads, h.pattern ≠ .wildcard) {q : Plan}
    (hq : compile type (heads ++ [.catchAll]) = .ok q) (tag : Nat) :
    q.armFor? tag = some heads.length ↔
      ∃ v, type.variant? tag = some v ∧ v.name ∈ type.uncovered heads := by
  rw [armFor?_completed htype hnamed hq, Option.map_eq_some_iff]
  refine exists_congr fun v => and_congr_right fun hv => ?_
  rw [findIdx_eq_length_iff, EnumType.mem_uncovered_iff]
  exact (and_iff_right (List.mem_map_of_mem (List.mem_of_getElem? hv))).symm

/-- A variant that some arm names is taken by this arm. -/
theorem exists_arm_of_not_mem_uncovered (htype : type.WellFormed)
    (hnamed : ∀ h ∈ heads, h.pattern ≠ .wildcard) {q : Plan}
    (hq : compile type (heads ++ [.catchAll]) = .ok q) {tag : Nat} {v : Variant}
    (hv : type.variant? tag = some v) (hcovered : v.name ∉ type.uncovered heads) :
    ∃ i h, q.armFor? tag = some i ∧ heads[i]? = some h ∧ h.pattern = .variant v.name := by
  have hentry := armFor?_completed htype hnamed hq tag
  rw [hv, Option.map_some] at hentry
  -- at the end of the list stands the wildcard, which takes uncovered variants only
  have hne : heads.findIdx (·.pattern == .variant v.name) ≠ heads.length := by
    intro hlength
    rw [hlength] at hentry
    obtain ⟨u, hu, huncovered⟩ := (armFor?_completed_eq_length_iff htype hnamed hq tag).mp hentry
    rw [hv] at hu
    cases hu
    exact hcovered huncovered
  obtain ⟨h, hh, hpattern⟩ := exists_arm_at_findIdx hne
  exact ⟨_, h, hentry, hh, hpattern⟩

/-- A completed list that was accepted before has the same arm for each tag. -/
theorem armFor?_completed_of_accepted (htype : type.WellFormed)
    (hnamed : ∀ h ∈ heads, h.pattern ≠ .wildcard) {p q : Plan} (hp : compile type heads = .ok p)
    (hq : compile type (heads ++ [.catchAll]) = .ok q) (tag : Nat) :
    q.armFor? tag = p.armFor? tag := by
  have hexhausts := ((exists_compile_iff htype).mp ⟨p, hp⟩).2
  rw [armFor?_completed htype hnamed hq, armFor?_of_compile htype hp]
  cases hv : type.variant? tag with
  | none => rfl
  | some v =>
    have hname : v.name ∈ type.variantNames := List.mem_map_of_mem (List.mem_of_getElem? hv)
    -- the accepted list has no wildcard, so an arm names the variant
    obtain ⟨h, hh, hpattern⟩ : ∃ h ∈ heads, h.pattern = .variant v.name := by
      rcases hexhausts with ⟨h, hh, hwildcard⟩ | hall
      · exact absurd hwildcard (hnamed h hh)
      · exact hall v.name hname
    rw [Option.bind_some, Option.map_some, EnumType.findIdx?_covers_of_no_wildcard hnamed]
    have hnames : (h.pattern == .variant v.name) = true := beq_iff_eq.mpr hpattern
    exact (List.findIdx?_eq_some_of_exists ⟨h, hh, hnames⟩).symm

/-- The missing variants that are reported are those that a wildcard would take. For every registered type
and every list of arms that name variants, the list with a wildcard behind it is accepted exactly if the
list itself is accepted, or rejected for variants that are left out. Then the tags for which the wildcard
fires are those of the variants reported, and none if the list was accepted; for each other variant there
fires the arm that names it, and if the list was accepted, the same arm as without the wildcard. In all
other cases the two lists are rejected for the same reason. -/
theorem missing_is_what_a_wildcard_takes {r : Registry} (hr : r.Reachable) (ht : type ∈ r.types)
    (hnamed : ∀ h ∈ heads, h.pattern ≠ .wildcard) :
    ((∃ q, compile type (heads ++ [.catchAll]) = .ok q) ↔
      (∃ p, compile type heads = .ok p) ∨
        ∃ name missing, compile type heads = .error (.nonExhaustive name missing)) ∧
    (∀ q missing, compile type (heads ++ [.catchAll]) = .ok q → LeavesOut type heads missing →
      (∀ tag, q.armFor? tag = some heads.length ↔
        ∃ v, type.variant? tag = some v ∧ v.name ∈ missing) ∧
      ∀ tag v, type.variant? tag = some v → v.name ∉ missing →
        ∃ i h, q.armFor? tag = some i ∧ heads[i]? = some h ∧ h.pattern = .variant v.name) ∧
    (∀ p q, compile type heads = .ok p → compile type (heads ++ [.catchAll]) = .ok q →
      ∀ tag, q.armFor? tag = p.armFor? tag) ∧
    ∀ e, compile type (heads ++ [.catchAll]) = .error e ↔
      compile type heads = .error e ∧ ∀ name missing, e ≠ .nonExhaustive name missing := by
  have htype : type.WellFormed := hr.consistent.wellFormed type ht
  refine ⟨?_, ?_, ?_, ?_⟩
  · rw [exists_compile_completed_iff htype hnamed, exists_leavesOut_iff htype]
  · intro q missing hq hleft
    obtain ⟨-, rfl⟩ := (leavesOut_iff htype hnamed).mp hleft
    refine ⟨armFor?_completed_eq_length_iff htype hnamed hq, ?_⟩
    intro tag v hv hcovered
    exact exists_arm_of_not_mem_uncovered htype hnamed hq hv hcovered
  · intro p q hp hq tag
    exact armFor?_completed_of_accepted htype hnamed hp hq tag
  · intro e
    -- a completed list leaves nothing out, so what is left is the first defect
    rw [compile_completed_eq_error_iff htype hnamed, compile_eq_error_iff htype]
    constructor
    · intro hfirst
      refine ⟨.inl hfirst, ?_⟩
      rintro name missing rfl
      obtain ⟨_, _, -, -, -, hdefect⟩ := hfirst
      cases hdefect
    · rintro ⟨hfirst | ⟨-, -, -, rfl⟩, hother⟩
      · exact hfirst
      · exact absurd rfl (hother _ _)

/-- An arm for texts leaves out the other two kinds of message. The wildcard takes these two. -/
theorem missing_is_what_a_wildcard_takes_message :
    ∃ q, compile Registry.message [⟨.variant "Write", .ignore⟩, .catchAll] = .ok q ∧
      (∀ tag, q.armFor? tag = some 1 ↔
        ∃ v, Registry.message.variant? tag = some v ∧ v.name ∈ ["Quit", "Move"]) ∧
      compile Registry.message [⟨.variant "Write", .positional []⟩, .catchAll]
        = .error (.binderMismatch "Message" "Write" (.positionalArity 1 0)) := by
  have hregistered : Registry.message ∈ [Registry.message] := List.mem_singleton.mpr rfl
  have hnamed : ∀ binder, ∀ h ∈ [ArmHead.mk (.variant "Write") binder], h.pattern ≠ .wildcard := by
    simp
  obtain ⟨hcompleted, htaken, -⟩ :=
    missing_is_what_a_wildcard_takes Registry.reachable_message hregistered (hnamed .ignore)
  obtain ⟨-, -, -, hrejected⟩ :=
    missing_is_what_a_wildcard_takes Registry.reachable_message hregistered (hnamed (.positional []))
  have hmissing : compile Registry.message [⟨.variant "Write", .ignore⟩]
      = .error (.nonExhaustive "Message" ["Quit", "Move"]) := rfl
  obtain ⟨q, hq⟩ := hcompleted.mpr (.inr ⟨_, _, hmissing⟩)
  exact ⟨q, hq, (htaken q _ hq (.inr hmissing)).1, (hrejected _).mpr ⟨rfl, by simp⟩⟩

end Plan

end TaggedUnion
