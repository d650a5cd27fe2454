import TaggedUnion.Proofs.Match.Compile

/-!
# What is reported of a rejected list

Many things can be wrong with a list of arms at once, and one of them is reported. Which one, is said
here of the list alone: the arms before the first defect are in order, so that nothing else about them
matters, and the arms behind it are not looked at.

* `ArmHead.Defect`: what is reported of one arm, given the arms before it.
* `Coverage.Records.defect_of_add`, `Coverage.Records.add_of_defect`: the step, in both directions. The
  state after the arms before tells as much as the arms.
* `Coverage.foldlM_eq_error_iff`: the run, by induction on the last arm.
* `EnumType.FirstDefect`: the report on the first arm that may not follow those before it.
* `Plan.compile_eq_error_iff`: what compiling reports, variants that are left out among it.
* `Plan.compile_reports_first_defect`: that it reports the first defect.
-/

namespace TaggedUnion

/-- What is reported of an arm that may not follow `earlier`. There are four reasons, and each supposes
that those before it do not apply. -/
inductive ArmHead.Defect (type : EnumType) (earlier : List ArmHead) (h : ArmHead) :
    MatchError → Prop
  /-- A wildcard stands before it. -/
  | unreachable {wildcard : Nat} (hwildcard : earlier.findIdx? (·.isWildcard) = some wildcard) :
      h.Defect type earlier (.unreachableArm type.name earlier.length wildcard)
  /-- It names something that is no variant. -/
  | unknown {name : String} (hreachable : ∀ e ∈ earlier, e.pattern ≠ .wildcard)
      (hpattern : h.pattern = .variant name) (hunknown : name ∉ type.variantNames) :
      h.Defect type earlier (.unknownVariant type.name name earlier.length)
  /-- It names a variant that is named before. -/
  | duplicate {name : String} {first : Nat} (hreachable : ∀ e ∈ earlier, e.pattern ≠ .wildcard)
      (hpattern : h.pattern = .variant name) (hknown : name ∈ type.variantNames)
      (hfirst : earlier.findIdx? (·.pattern == .variant name) = some first) :
      h.Defect type earlier (.duplicateArm type.name name first earlier.length)
  /-- Its binder does not fit. -/
  | binder {issue : BinderIssue} (hreachable : ∀ e ∈ earlier, e.pattern ≠ .wildcard)
      (hknown : ∀ name, h.pattern = .variant name → name ∈ type.variantNames)
      (hfresh : ∀ name, h.pattern = .variant name → ∀ e ∈ earlier, e.pattern ≠ .variant name)
      (hissue : h.binder.resolve (h.shape? type) = .error issue) :
      h.Defect type earlier (.binderMismatch type.name h.patternName issue)

/-- The reasons are those for which an arm may not follow others. -/
theorem ArmHead.Defect.not_admissible {type : EnumType} (htype : type.WellFormed)
    {earlier : List ArmHead} {h : ArmHead} {e : MatchError} (hdefect : h.Defect type earlier e) :
    ¬ h.Admissible type earlier := by
  intro hadm
  cases hdefect with
  | unreachable hwildcard =>
    obtain ⟨hlt, hpattern, -⟩ := List.findIdx?_eq_some_iff_getElem.mp hwildcard
    exact hadm.reachable _ (List.getElem_mem hlt) (ArmHead.isWildcard_iff.mp hpattern)
  | unknown hreachable hpattern hunknown => exact hunknown (hadm.known _ hpattern)
  | duplicate hreachable hpattern hknown hfirst =>
    obtain ⟨hlt, hnames, -⟩ := List.findIdx?_eq_some_iff_getElem.mp hfirst
    exact hadm.fresh _ hpattern _ (List.getElem_mem hlt) (beq_iff_eq.mp hnames)
  | binder hreachable hknown hfresh hissue =>
    obtain ⟨b, hb⟩ := (Binder.exists_resolve_iff fun s hs =>
      Coverage.wellFormed_of_shape? htype hs).mpr hadm.fits
    rw [hb] at hissue
    cases hissue

namespace EnumType

/-- `e` is what is reported of the first arm that may not follow those before it. -/
def FirstDefect (type : EnumType) (heads : List ArmHead) (e : MatchError) : Prop :=
  ∃ (k : Nat) (h : ArmHead), heads[k]? = some h ∧
    (∀ (j : Nat) (earlier : ArmHead), j < k → heads[j]? = some earlier →
      earlier.Admissible type (heads.take j)) ∧
    ¬ h.Admissible type (heads.take k) ∧ h.Defect type (heads.take k) e

variable {type : EnumType} {heads : List ArmHead}

/-- The first arms of a list are accepted exactly if each of them may follow those before it. -/
theorem accepts_take_iff {k : Nat} :
    type.Accepts (heads.take k) ↔
      ∀ (j : Nat) (h : ArmHead), j < k → heads[j]? = some h →
        h.Admissible type (heads.take j) := by
  rw [accepts_iff_admissible]
  constructor
  · intro hall j h hj hh
    have hadm := hall j h (by rw [List.getElem?_take_of_lt hj, hh])
    rwa [List.take_take, Nat.min_eq_left (Nat.le_of_lt hj)] at hadm
  · intro hall j h hh
    obtain ⟨hlt, -⟩ := List.getElem?_eq_some_iff.mp hh
    have hj : j < k := by
      rw [List.length_take] at hlt
      omega
    rw [List.getElem?_take_of_lt hj] at hh
    rw [List.take_take, Nat.min_eq_left (Nat.le_of_lt hj)]
    exact hall j h hj hh

/-- Arms behind the first defect are not looked at. -/
theorem FirstDefect.append {e : MatchError} (h : type.FirstDefect heads e) (more : List ArmHead) :
    type.FirstDefect (heads ++ more) e := by
  obtain ⟨k, arm, hk, hearlier, hdefect⟩ := h
  obtain ⟨hlt, -⟩ := List.getElem?_eq_some_iff.mp hk
  have htake : ∀ j ≤ k, (heads ++ more).take j = heads.take j := fun j hj =>
    List.take_append_of_le_length (by omega)
  refine ⟨k, arm, by rw [List.getElem?_append_left hlt, hk], ?_, ?_⟩
  · intro j earlier hj hh
    rw [List.getElem?_append_left (by omega)] at hh
    rw [htake j (by omega)]
    exact hearlier j earlier hj hh
  · rw [htake k (Nat.le_refl k)]
    exact hdefect

end EnumType

/-! ## One arm -/

namespace Coverage

variable {type : EnumType} {heads : List ArmHead} {c : Coverage} {head : ArmHead} {e : MatchError}

/-- What is wrong with a binder is reported with the name that its arm has. -/
theorem resolve_eq_error_iff {shape : Option Shape} :
    resolve type head shape = .error e ↔ ∃ issue, head.binder.resolve shape = .error issue ∧
      e = .binderMismatch type.name head.patternName issue := by
  unfold resolve
  cases head.binder.resolve shape <;> simp [eq_comm]

/-- Everything that can be wrong with one arm, by the state before it. -/
theorem add_eq_error_iff :
    add type c head = .error e ↔
      (∃ w, c.wildcard = some w ∧ e = .unreachableArm type.name c.binders.length w) ∨
      c.wildcard = none ∧
        ((head.pattern = .wildcard ∧ resolve type head none = .error e) ∨
          ∃ name, head.pattern = .variant name ∧
            ((type.variantNamed? name = none ∧
                e = .unknownVariant type.name name c.binders.length) ∨
              ∃ tag v, type.variantNamed? name = some (tag, v) ∧
                ((∃ first, c.claims[tag.val]?.join = some first ∧
                    e = .duplicateArm type.name name first c.binders.length) ∨
                  c.claims[tag.val]?.join = none ∧
                    resolve type head (some v.shape) = .error e))) := by
  unfold add
  cases hwildcard : c.wildcard with
  | some w => simp [eq_comm]
  | none =>
    -- no wildcard stands before the arm
    cases hpattern : head.pattern with
    | wildcard =>
      show (resolve type head none >>= _) = _ ↔ _
      rw [bind_eq_error_iff]
      simp
    | variant name =>
      cases hnamed : type.variantNamed? name with
      | none => simp [hnamed, eq_comm]
      | some found =>
        obtain ⟨tag, v⟩ := found
        have htag : c.claims[tag]? = c.claims[tag.val]? := rfl
        cases hclaim : c.claims[tag.val]?.join with
        | some first => simp [hnamed, htag, hclaim, eq_comm]
        | none =>
          simp only [hnamed, htag, hclaim, bind_eq_error_iff]
          simp [hnamed, hclaim]

/-- What the state after `heads` finds wrong with one more arm is a defect of it. -/
theorem Records.defect_of_add (htype : type.WellFormed) (h : Records type heads c)
    (hadd : add type c head = .error e) : head.Defect type heads e := by
  rcases add_eq_error_iff.mp hadd with ⟨w, hwildcard, rfl⟩ | ⟨hwildcard, hcases⟩
  · rw [h.length_binders]
    exact .unreachable (h.wildcard ▸ hwildcard)
  -- no wildcard is recorded, so the arm can be reached
  have hreachable := no_wildcard_of_records h hwildcard
  rcases hcases with ⟨hpattern, hresolve⟩ | ⟨name, hpattern, hcases⟩
  · obtain ⟨issue, hissue, rfl⟩ := resolve_eq_error_iff.mp hresolve
    have hnoshape : head.shape? type = none := shape?_of_wildcard hpattern
    rw [← hnoshape] at hissue
    exact .binder hreachable (by simp [hpattern]) (by simp [hpattern]) hissue
  rcases hcases with ⟨hnamed, rfl⟩ | ⟨tag, v, hnamed, hcases⟩
  · rw [h.length_binders]
    exact .unknown hreachable hpattern ((EnumType.variantNamed?_eq_none_iff htype).mp hnamed)
  have hknown : name ∈ type.variantNames := by
    by_contra hunknown
    rw [(EnumType.variantNamed?_eq_none_iff htype).mpr hunknown] at hnamed
    cases hnamed
  -- the claim on the tag is the first arm that names the variant
  rw [h.claims_join htype hnamed] at hcases
  rcases hcases with ⟨first, hfirst, rfl⟩ | ⟨hfree, hresolve⟩
  · rw [h.length_binders]
    exact .duplicate hreachable hpattern hknown hfirst
  · obtain ⟨issue, hissue, rfl⟩ := resolve_eq_error_iff.mp hresolve
    rw [← shape?_of_variantNamed? htype hpattern hnamed] at hissue
    rw [List.findIdx?_eq_none_iff] at hfree
    refine .binder hreachable ?_ ?_ hissue
    · intro n hn
      rw [hpattern] at hn
      cases hn
      exact hknown
    · intro n hn e he
      rw [hpattern] at hn
      cases hn
      simpa using hfree e he

/-- A defect of an arm is found from the state after the arms before it. -/
theorem Records.add_of_defect (htype : type.WellFormed) (h : Records type heads c)
    (hdefect : head.Defect type heads e) : add type c head = .error e := by
  rw [add_eq_error_iff]
  cases hdefect with
  | @unreachable w hw => exact .inl ⟨w, h.wildcard.trans hw, by rw [h.length_binders]⟩
  | @unknown name hreachable hpattern hunknown =>
    refine .inr ⟨h.wildcard_eq_none hreachable, .inr ⟨name, hpattern, .inl ⟨?_, ?_⟩⟩⟩
    · exact (EnumType.variantNamed?_eq_none_iff htype).mpr hunknown
    · rw [h.length_binders]
  | @duplicate name first hreachable hpattern hknown hfirst =>
    obtain ⟨tag, v, hnamed⟩ := EnumType.exists_variantNamed? htype hknown
    have hclaim := (h.claims_join htype hnamed).trans hfirst
    refine .inr ⟨h.wildcard_eq_none hreachable, .inr ⟨name, hpattern, .inr ⟨tag, v, hnamed, ?_⟩⟩⟩
    exact .inl ⟨first, hclaim, by rw [h.length_binders]⟩
  | @binder issue hreachable hknown hfresh hissue =>
    refine .inr ⟨h.wildcard_eq_none hreachable, ?_⟩
    cases hpattern : head.pattern with
    | wildcard =>
      rw [shape?_of_wildcard hpattern] at hissue
      exact .inl ⟨rfl, resolve_eq_error_iff.mpr ⟨issue, hissue, rfl⟩⟩
    | variant name =>
      obtain ⟨tag, v, hnamed⟩ := EnumType.exists_variantNamed? htype (hknown name hpattern)
      rw [shape?_of_variantNamed? htype hpattern hnamed] at hissue
      refine .inr ⟨name, rfl, .inr ⟨tag, v, hnamed, .inr ⟨?_, ?_⟩⟩⟩
      · rw [h.claims_join htype hnamed, List.findIdx?_eq_none_iff]
        intro e he
        simpa using hfresh name hpattern e he
      · exact resolve_eq_error_iff.mpr ⟨issue, hissue, rfl⟩

/-! ## All arms -/

/-- Induction on the last arm: the steps are `Records.defect_of_add` and `Records.add_of_defect`. -/
theorem foldlM_eq_error_iff (htype : type.WellFormed) :
    heads.foldlM (add type) (empty type) = .error e ↔
      ∃ (k : Nat) (h : ArmHead), heads[k]? = some h ∧ type.Accepts (heads.take k) ∧
        h.Defect type (heads.take k) e := by
  induction heads using List.reverseRecOn with
  | nil => simp [pure, Except.pure]
  | append_singleton earlier last ih =>
    -- the run fails before the last arm, or at it
    rw [EnumType.exists_arm_concat_iff (P := fun earlier h => type.Accepts earlier ∧
      h.Defect type earlier e), ← ih, List.foldlM_append, bind_eq_error_iff]
    refine or_congr_right ?_
    have hlast : ∀ mid, [last].foldlM (add type) mid = add type mid last := fun mid => by
      simp [List.foldlM_cons]
    simp only [hlast]
    constructor
    · rintro ⟨mid, hmid, hadd⟩
      obtain ⟨hacc, hrec⟩ := records_of_foldlM htype hmid
      exact ⟨hacc, hrec.defect_of_add htype hadd⟩
    · rintro ⟨hacc, hdefect⟩
      obtain ⟨mid, hmid⟩ := exists_foldlM htype hacc
      obtain ⟨-, hrec⟩ := records_of_foldlM htype hmid
      exact ⟨mid, hmid, hrec.add_of_defect htype hdefect⟩

/-- The arms before the first defect make up a list that is accepted. -/
theorem foldlM_eq_error_iff_firstDefect (htype : type.WellFormed) :
    heads.foldlM (add type) (empty type) = .error e ↔ type.FirstDefect heads e := by
  rw [foldlM_eq_error_iff htype]
  unfold EnumType.FirstDefect
  refine exists_congr fun k => exists_congr fun h => and_congr_right fun _ => ?_
  rw [EnumType.accepts_take_iff]
  exact ⟨fun ⟨hearlier, hdefect⟩ => ⟨hearlier, hdefect.not_admissible htype, hdefect⟩,
    fun ⟨hearlier, _, hdefect⟩ => ⟨hearlier, hdefect⟩⟩

/-! ## Variants left out -/

/-- A table cannot be closed exactly if some variant is left to a wildcard that is not there. The report
lists all such variants. -/
theorem table_eq_error_iff (h : Records type heads c) :
    c.table type = .error e ↔ (∀ h ∈ heads, h.pattern ≠ .wildcard) ∧
      type.uncovered heads ≠ [] ∧ e = .nonExhaustive type.name (type.uncovered heads) := by
  unfold table
  cases hwildcard : c.wildcard with
  | some w =>
    have hcontra : ¬ ∀ h ∈ heads, h.pattern ≠ .wildcard := by
      intro hno
      rw [h.wildcard_eq_none hno] at hwildcard
      cases hwildcard
    simp [hcontra]
  | none =>
    have hno := no_wildcard_of_records h hwildcard
    rw [← missing_eq h]
    dsimp only
    by_cases hmissing : (c.missing type).isEmpty = true
    · rw [if_pos hmissing, List.isEmpty_iff.mp hmissing]
      simp
    · rw [if_neg hmissing, Except.error.injEq]
      have hne : c.missing type ≠ [] := fun h => hmissing (List.isEmpty_iff.mpr h)
      exact ⟨fun h => ⟨hno, hne, h.symm⟩, fun h => h.2.2.symm⟩

end Coverage

/-! ## Whole lists -/

namespace Plan

variable {type : EnumType} {heads : List ArmHead} {e : MatchError}

/-- A list is rejected for its first defect. If there is none, it is for the variants left out. -/
theorem compile_eq_error_iff (htype : type.WellFormed) :
    compile type heads = .error e ↔ type.FirstDefect heads e ∨
      type.Accepts heads ∧ (∀ h ∈ heads, h.pattern ≠ .wildcard) ∧ type.uncovered heads ≠ [] ∧
        e = .nonExhaustive type.name (type.uncovered heads) := by
  unfold compile
  rw [bind_eq_error_iff, Coverage.foldlM_eq_error_iff_firstDefect htype]
  refine or_congr_right ?_
  simp only [bind_eq_error_iff, reduceCtorEq, and_false, exists_false, or_false]
  constructor
  · rintro ⟨c, hc, htable⟩
    obtain ⟨hacc, hrec⟩ := Coverage.records_of_foldlM htype hc
    exact ⟨hacc, (Coverage.table_eq_error_iff hrec).mp htable⟩
  · rintro ⟨hacc, hleft⟩
    obtain ⟨c, hc⟩ := Coverage.exists_foldlM htype hacc
    obtain ⟨-, hrec⟩ := Coverage.records_of_foldlM htype hc
    exact ⟨c, hc, (Coverage.table_eq_error_iff hrec).mpr hleft⟩

/-- Variants are reported as missing only of a list in which all arms are in order. -/
theorem compile_eq_nonExhaustive_iff (htype : type.WellFormed) {name : String}
    {missing : List String} :
    compile type heads = .error (.nonExhaustive name missing) ↔
      type.Accepts heads ∧ (∀ h ∈ heads, h.pattern ≠ .wildcard) ∧ type.uncovered heads ≠ [] ∧
        name = type.name ∧ missing = type.uncovered heads := by
  rw [compile_eq_error_iff htype, MatchError.nonExhaustive.injEq]
  refine or_iff_right ?_
  -- no defect of an arm is reported in this way
  rintro ⟨_, _, -, -, -, hdefect⟩
  cases hdefect

/-- A rejected list of arms is reported by its first defect. If some arm may not follow those before it,
what is reported is about the first such arm: that a wildcard stands before it, and where; or else that
it names something that is no variant; or else that it names a variant which is named before, and where;
or else that its binder does not fit. More arms behind such a list change nothing. That variants are
left out is reported only of a list in which all arms are in order, and the report lists the variants
that no arm names, each once and in declared order. -/
theorem compile_reports_first_defect {r : Registry} (hr : r.Reachable) (ht : type ∈ r.types) :
    (∀ e, compile type heads = .error e ↔ type.FirstDefect heads e ∨
      (∀ (k : Nat) (h : ArmHead), heads[k]? = some h → h.Admissible type (heads.take k)) ∧
        (∀ h ∈ heads, h.pattern ≠ .wildcard) ∧ type.uncovered heads ≠ [] ∧
        e = .nonExhaustive type.name (type.uncovered heads)) ∧
    ((∃ (k : Nat) (h : ArmHead), heads[k]? = some h ∧ ¬ h.Admissible type (heads.take k)) →
      ∃ e, type.FirstDefect heads e) ∧
    (∀ e more, type.FirstDefect heads e → compile type (heads ++ more) = .error e) ∧
    (type.uncovered heads).Nodup := by
  have htype : type.WellFormed := hr.consistent.wellFormed type ht
  refine ⟨?_, ?_, ?_, EnumType.nodup_uncovered htype.names_nodup heads⟩
  · intro e
    rw [compile_eq_error_iff htype, EnumType.accepts_iff_admissible]
  · rintro ⟨k, h, hk, hdefective⟩
    -- the run over the arms fails, or it would have accepted the defective arm
    cases hrun : heads.foldlM (Coverage.add type) (Coverage.empty type) with
    | error e => exact ⟨e, (Coverage.foldlM_eq_error_iff_firstDefect htype).mp hrun⟩
    | ok c =>
      obtain ⟨hacc, -⟩ := Coverage.records_of_foldlM htype hrun
      exact absurd (EnumType.accepts_iff_admissible.mp hacc k h hk) hdefective
  · intro e more hfirst
    exact (compile_eq_error_iff htype).mpr (.inl (hfirst.append more))

/-- The second arm repeats the first, and its binder does not fit either. Two variants are left out, and
the arms that are added have defects of their own. -/
theorem compile_reports_first_defect_repeated :
    compile Registry.message
        ([⟨.variant "Quit", .ignore⟩, ⟨.variant "Quit", .positional ["x"]⟩]
          ++ [⟨.variant "Stop", .ignore⟩, ⟨.wildcard, .positional []⟩])
      = .error (.duplicateArm "Message" "Quit" 0 1) := by
  have hregistered : Registry.message ∈ [Registry.message] := List.mem_singleton.mpr rfl
  obtain ⟨hreported, -, happend, -⟩ :=
    compile_reports_first_defect Registry.reachable_message hregistered
  have hrejected : compile Registry.message
      [⟨.variant "Quit", .ignore⟩, ⟨.variant "Quit", .positional ["x"]⟩]
      = .error (.duplicateArm "Message" "Quit" 0 1) := rfl
  rcases (hreported _).mp hrejected with hfirst | ⟨-, -, -, hcontra⟩
  · exact happend _ _ hfirst
  · cases hcontra

end Plan

end TaggedUnion
