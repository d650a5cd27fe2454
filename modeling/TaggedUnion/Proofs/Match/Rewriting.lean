import TaggedUnion.Proofs.Match.Defects
import TaggedUnion.Proofs.Session.Invariant

/-!
# Rewriting lists of arms

Two ways to write the arms of a match differently that nobody can observe: to put the arms that name
variants into another order, and to spell out what a wildcard stands for. Either way the numbers of the
arms change, and with them the table and the row of resolved binders, but not which body runs, or what
it is given.

* `Plan.Fires`: the arm that a value reaches, by its place, and what is bound.
* `Plan.Fires.transfer`: what one list does another does as well, if there is an arm in it that takes the
  same variant and whose binder is resolved to the same.
* `EnumType.accepts_perm_iff`, `Plan.Fires.perm`: rearranged lists.
* `EnumType.accepts_spelled_out`, `Plan.Fires.spelled_out`: lists with an arm for each variant that a
  wildcard takes.
* `World.Reachable.named_arms_commute`, `World.Reachable.wildcard_is_shorthand`: that nobody can observe
  it.
-/

namespace TaggedUnion

/-! ## The arm that fires -/

namespace Plan

variable {R : Type} {p p' : Plan} {arms arms' : List (Arm R)} {v : EnumValue} {i j : Nat}
  {arm arm' : Arm R} {b : Bindings}

/-- The plan sends `v` to the arm at place `i` of the list, which is `arm`, and binds `b` for it. -/
structure Fires (p : Plan) (arms : List (Arm R)) (v : EnumValue) (i : Nat) (arm : Arm R)
    (b : Bindings) : Prop where
  entry : p.armFor? v.tag = some i
  arm_eq : arms[i]? = some arm
  bind_eq : p.bind i v = .ok b

/-- Running the plan is running the body of the arm that fires. -/
theorem Fires.run_eq (h : p.Fires arms v i arm b) : p.run v arms = .ok (arm.body b) := by
  unfold run
  rw [h.entry]
  dsimp only
  rw [h.arm_eq]
  dsimp only
  rw [h.bind_eq]
  rfl

/-- Some arm of an accepted list fires for each well-formed value. -/
theorem exists_fires {r : Registry} (hr : r.Consistent) (hv : v.WellFormed r)
    (hp : compile v.type (arms.map (·.head)) = .ok p) : ∃ i arm b, p.Fires arms v i arm b := by
  obtain ⟨i, arm, entries, hentry, harm, -, hbind, -, -⟩ := exists_run hr hv hp
  exact ⟨i, arm, _, hentry, harm, hbind⟩

/-- What is bound for the arm is what its binder asks for on the value. -/
theorem Fires.exists_binds {r : Registry} (hr : r.Consistent) (hv : v.WellFormed r)
    (hp : compile v.type (arms.map (·.head)) = .ok p) (h : p.Fires arms v i arm b) :
    ∃ entries, b = ⟨v.variantName, entries⟩ ∧ arm.head.binder.Binds v entries := by
  obtain ⟨j, arm', entries, hentry, harm, -, hbind, hbinds, -⟩ := exists_run hr hv hp
  obtain rfl : i = j := Option.some.inj (h.entry.symm.trans hentry)
  obtain rfl : arm = arm' := Option.some.inj (h.arm_eq.symm.trans harm)
  exact ⟨entries, Except.ok.inj (h.bind_eq.symm.trans hbind), hbinds⟩

/-- The arm that fires is the one that takes the variant held. -/
theorem armFor?_eq_some_iff_takes (htype : v.type.WellFormed)
    (hp : compile v.type (arms.map (·.head)) = .ok p) (harm : arms[i]? = some arm) :
    p.armFor? v.tag = some i ↔ arm.head.Takes (arms.map (·.head)) v.variantName := by
  rw [armFor?_tag htype hp, ← (accepts_of_compile htype hp).findIdx?_covers_eq_some_iff_takes
    (getElem?_map_head harm), List.findIdx?_map]
  rfl

/-- Where one list fires an arm, another list fires an arm that takes the same variant. If its binder is
resolved to the same, so are its bindings. -/
theorem Fires.transfer (htype : v.type.WellFormed)
    (hp : compile v.type (arms.map (·.head)) = .ok p)
    (hp' : compile v.type (arms'.map (·.head)) = .ok p') (h : p.Fires arms v i arm b)
    (harm' : arms'[j]? = some arm')
    (htakes : arm'.head.Takes (arms'.map (·.head)) v.variantName)
    (hsame : ∀ rb, arm.head.binder.resolve (arm.head.shape? v.type) = .ok rb →
      arm'.head.binder.resolve (arm'.head.shape? v.type) = .ok rb) :
    p'.Fires arms' v j arm' b where
  entry := (armFor?_eq_some_iff_takes htype hp' harm').mpr htakes
  arm_eq := harm'
  bind_eq := by
    obtain ⟨rb, hrb, hresolve⟩ := exists_resolve_of_compile htype hp (getElem?_map_head h.arm_eq)
    obtain ⟨rb', hrb', hresolve'⟩ := exists_resolve_of_compile htype hp' (getElem?_map_head harm')
    obtain rfl : rb = rb' := Except.ok.inj ((hsame rb hresolve).symm.trans hresolve')
    rw [← h.bind_eq]
    unfold bind
    rw [hrb, hrb']

end Plan

/-- Whatever a matcher has been asked before, it runs the body of the arm that fires. -/
theorem World.Reachable.evaluate_of_fires {R : Type} {w : World} (hw : w.Reachable) {v : EnumValue}
    (hv : v ∈ w.held) {m : Matcher}
    (hm : m = w.session.matcher ∨ m.Reachable w.session.registry) {arms : List (Arm R)} {p : Plan}
    (hp : Plan.compile v.type (arms.map (·.head)) = .ok p) {i : Nat} {arm : Arm R} {b : Bindings}
    (h : p.Fires arms v i arm b) : (m.evaluate v arms).1 = .ok (arm.body b) := by
  have hsound := hw.sound
  have hmatcher : m.Sound w.session.registry := by
    rcases hm with rfl | hm
    · exact hsound.matcher.sound
    · exact hm.sound
  rw [Matcher.answer_evaluate_of_sound hsound.registry.consistent hmatcher
    (hsound.held v hv).registered, hp]
  exact h.run_eq

/-! ## Arms in another order -/

namespace EnumType

variable {t : EnumType} {heads heads' named tail : List ArmHead}

/-- A wildcard stands last if the arms before the last all name variants. -/
theorem pairwise_append_of_named (hnamed : ∀ h ∈ named, h.pattern ≠ .wildcard)
    (htail : tail.length ≤ 1) :
    (named ++ tail).Pairwise fun earlier _ => earlier.pattern ≠ .wildcard := by
  rw [List.pairwise_append]
  refine ⟨List.pairwise_of_forall_mem_list fun a ha _ _ => hnamed a ha, ?_,
    fun a ha _ _ => hnamed a ha⟩
  match tail, htail with
  | [], _ => exact .nil
  | [h], _ => exact List.pairwise_singleton _ h

/-- Two orders of the arms are accepted alike, if a wildcard stands last in both. -/
theorem accepts_perm_iff (hperm : heads'.Perm heads)
    (hlast : heads.Pairwise fun earlier _ => earlier.pattern ≠ .wildcard)
    (hlast' : heads'.Pairwise fun earlier _ => earlier.pattern ≠ .wildcard) :
    t.Accepts heads' ↔ t.Accepts heads :=
  ⟨fun h => h.perm hperm.symm hlast, fun h => h.perm hperm hlast'⟩

end EnumType

/-- Which variants an arm takes does not depend on the order of the arms. -/
theorem ArmHead.takes_perm_iff {heads heads' : List ArmHead} (hperm : heads'.Perm heads)
    {variant : String} {h : ArmHead} : h.Takes heads' variant ↔ h.Takes heads variant := by
  simp only [Takes, hperm.mem_iff]

/-- The arm that takes a variant takes it wherever it stands. -/
theorem Plan.Fires.perm {R : Type} {p p' : Plan} {arms arms' : List (Arm R)} {v : EnumValue}
    (htype : v.type.WellFormed) (hp : compile v.type (arms.map (·.head)) = .ok p)
    (hp' : compile v.type (arms'.map (·.head)) = .ok p') (hperm : arms'.Perm arms) {i : Nat}
    {arm : Arm R} {b : Bindings} (h : p.Fires arms v i arm b) :
    ∃ j, p'.Fires arms' v j arm b := by
  have hmem : arm ∈ arms' := hperm.mem_iff.mpr (List.mem_of_getElem? h.arm_eq)
  obtain ⟨j, hj⟩ := List.mem_iff_getElem?.mp hmem
  have htakes := (armFor?_eq_some_iff_takes htype hp h.arm_eq).mp h.entry
  rw [← ArmHead.takes_perm_iff (hperm.map (·.head))] at htakes
  exact ⟨j, h.transfer htype hp hp' hj htakes fun _ hresolve => hresolve⟩

namespace World

variable {R : Type} {w : World}

/-- The order of the arms that name variants does not matter. Take a registered type, arms that name
variants, in two orders, and after them nothing or a wildcard. The two lists are both accepted or both
rejected. If they are accepted, any instance of the type that clients can hold reaches the same arm with
the same bindings, so that matching it comes to the same body. If one is rejected for variants that are
left out, the other is rejected for the same ones. -/
theorem Reachable.named_arms_commute (hw : w.Reachable) {type : EnumType}
    (ht : type ∈ w.session.registry.types) {named named' tail : List (Arm R)}
    (hnamed : ∀ arm ∈ named, arm.head.pattern ≠ .wildcard) (hperm : named'.Perm named)
    (htail : tail = [] ∨ ∃ last : Arm R, last.head.pattern = .wildcard ∧ tail = [last]) :
    ((∃ p, Plan.compile type ((named ++ tail).map (·.head)) = .ok p) ↔
      ∃ p', Plan.compile type ((named' ++ tail).map (·.head)) = .ok p') ∧
    (∀ p p', Plan.compile type ((named ++ tail).map (·.head)) = .ok p →
      Plan.compile type ((named' ++ tail).map (·.head)) = .ok p' →
      ∀ v ∈ w.held, v.type = type →
        ∃ i j arm b, p.Fires (named ++ tail) v i arm b ∧ p'.Fires (named' ++ tail) v j arm b ∧
          ∀ m : Matcher, m = w.session.matcher ∨ m.Reachable w.session.registry →
            (m.evaluate v (named ++ tail)).1 = .ok (arm.body b) ∧
            (m.evaluate v (named' ++ tail)).1 = .ok (arm.body b)) ∧
    ∀ name missing,
      Plan.compile type ((named ++ tail).map (·.head)) = .error (.nonExhaustive name missing) ↔
        Plan.compile type ((named' ++ tail).map (·.head))
          = .error (.nonExhaustive name missing) := by
  have hcon := hw.sound.registry.consistent
  have htype : type.WellFormed := hcon.wellFormed type ht
  have harms : (named' ++ tail).Perm (named ++ tail) := hperm.append_right tail
  have hheads : ((named' ++ tail).map (·.head)).Perm ((named ++ tail).map (·.head)) :=
    harms.map _
  -- a wildcard stands last in both lists
  have hlast : ∀ arms : List (Arm R), (∀ arm ∈ arms, arm.head.pattern ≠ .wildcard) →
      ((arms ++ tail).map (·.head)).Pairwise fun earlier _ => earlier.pattern ≠ .wildcard := by
    intro arms harms
    rw [List.map_append]
    refine EnumType.pairwise_append_of_named (by simpa using harms) ?_
    rw [List.length_map]
    rcases htail with rfl | ⟨last, -, rfl⟩ <;> simp
  have hnamed' : ∀ arm ∈ named', arm.head.pattern ≠ .wildcard :=
    fun arm harm => hnamed arm (hperm.mem_iff.mp harm)
  have haccepts := EnumType.accepts_perm_iff (t := type) hheads (hlast named hnamed)
    (hlast named' hnamed')
  refine ⟨?_, ?_, ?_⟩
  · -- acceptance and what is left out are the same for both orders
    rw [Plan.exists_compile_iff htype, Plan.exists_compile_iff htype, haccepts,
      EnumType.exhausts_perm_iff hheads]
  · rintro p p' hp hp' v hv rfl
    obtain ⟨i, arm, b, hfires⟩ := Plan.exists_fires hcon (hw.sound.held v hv) hp
    obtain ⟨j, hfires'⟩ := hfires.perm htype hp hp' harms
    refine ⟨i, j, arm, b, hfires, hfires', ?_⟩
    intro m hm
    exact ⟨hw.evaluate_of_fires hv hm hp hfires, hw.evaluate_of_fires hv hm hp' hfires'⟩
  · intro name missing
    rw [Plan.compile_eq_nonExhaustive_iff htype, Plan.compile_eq_nonExhaustive_iff htype, haccepts,
      EnumType.uncovered_perm hheads]
    simp only [hheads.mem_iff]

/-- The message reaches the arm for texts, be it the first or the second. Without the wildcard the moves
are left out, in either order. -/
theorem Reachable.named_arms_commute_messages :
    let onQuit : Arm String := .on "Quit" .ignore fun _ => "quit"
    let onWrite : Arm String := .on "Write" (.positional ["text"]) fun b => b.variant
    let other : Arm String := .otherwise .ignore fun _ => "other"
    (∃ p p' b, Plan.Fires p ([onQuit, onWrite] ++ [other]) written 1 onWrite b ∧
      Plan.Fires p' ([onWrite, onQuit] ++ [other]) written 0 onWrite b ∧
      (Matcher.uncached.evaluate written ([onWrite, onQuit] ++ [other])).1
        = .ok (onWrite.body b)) ∧
    Plan.compile Registry.message ([onWrite, onQuit].map (·.head))
      = .error (.nonExhaustive "Message" ["Move"]) := by
  intro onQuit onWrite other
  have ht : Registry.message ∈ messages.session.registry.types := List.mem_cons_self
  have hnamed : ∀ arm ∈ [onQuit, onWrite], arm.head.pattern ≠ .wildcard := by
    simp [onQuit, onWrite, Arm.on]
  have hperm : [onWrite, onQuit].Perm [onQuit, onWrite] := .swap _ _ _
  constructor
  · have hp : Plan.compile Registry.message (([onQuit, onWrite] ++ [other]).map (·.head))
        = .ok ⟨Registry.message, [0, 2, 1], [.nothing, .fields [("text", 0)], .nothing]⟩ := rfl
    have hp' : Plan.compile Registry.message (([onWrite, onQuit] ++ [other]).map (·.head))
        = .ok ⟨Registry.message, [1, 2, 0], [.fields [("text", 0)], .nothing, .nothing]⟩ := rfl
    have hheld : written ∈ messages.held := by simp [messages]
    obtain ⟨-, hfires, -⟩ :=
      reachable_messages.named_arms_commute ht hnamed hperm (.inr ⟨other, rfl, rfl⟩)
    obtain ⟨i, j, arm, b, hi, hj, houtcome⟩ := hfires _ _ hp hp' written hheld rfl
    obtain rfl : 1 = i := Option.some.inj hi.entry
    obtain rfl : 0 = j := Option.some.inj hj.entry
    obtain rfl : onWrite = arm := Option.some.inj hi.arm_eq
    exact ⟨_, _, b, hi, hj, (houtcome Matcher.uncached (.inr (.new 0))).2⟩
  · obtain ⟨-, -, hmissing⟩ := reachable_messages.named_arms_commute ht hnamed hperm (.inl rfl)
    exact (hmissing "Message" ["Move"]).mp rfl

end World

/-! ## A wildcard spelled out -/

namespace Binder

variable {b : Binder} {rb : ResolvedBinder}

/-- At a wildcard no fields are named, so it makes no difference which fields there are. -/
theorem resolve_of_wildcard (h : b.resolve none = .ok rb) (shape : Option Shape) :
    b.resolve shape = .ok rb := by
  cases b with
  | ignore => exact h
  | whole name => exact h
  | positional names => cases h
  | named pairs => cases h

/-- A binder that fits a wildcard names no fields, so it fits every shape. -/
theorem Fits.of_wildcard (h : b.Fits none) (shape : Option Shape) : b.Fits shape := by
  cases b with
  | ignore => trivial
  | whole name => trivial
  | positional names => cases h
  | named pairs => cases h

end Binder

namespace EnumType

variable {t : EnumType} {heads : List ArmHead} {binder : Binder} {names : List String}

/-- Arms that are written instead of a wildcard are accepted where the wildcard was. -/
theorem accepts_spelled_out (hnodup : t.variantNames.Nodup)
    (h : t.Accepts (heads ++ [⟨.wildcard, binder⟩])) (hnames : names.Perm (t.uncovered heads)) :
    t.Accepts (heads ++ names.map fun name => ⟨.variant name, binder⟩) := by
  obtain ⟨hheads, hadm⟩ := accepts_concat_iff.mp h
  have huncovered : ∀ name ∈ names, name ∈ t.variantNames ∧ ∀ e ∈ heads, e.pattern ≠ .variant name :=
    fun name hname => mem_uncovered_iff.mp (hnames.mem_iff.mp hname)
  -- the binder fits the wildcard, so it fits each of the new arms
  have hbinder : ∀ shape, binder.Fits shape := by
    intro shape
    have hfits := hadm.fits
    rw [Coverage.shape?_of_wildcard rfl] at hfits
    exact hfits.of_wildcard shape
  refine ⟨?_, ?_, ?_, ?_⟩
  · refine List.pairwise_of_forall_mem_list fun e he _ _ => ?_
    rcases List.mem_append.mp he with he | he
    · exact hadm.reachable e he
    · obtain ⟨name, -, rfl⟩ := List.mem_map.mp he
      simp
  · intro e he name hpattern
    rcases List.mem_append.mp he with he | he
    · exact hheads.known e he name hpattern
    · obtain ⟨n, hn, rfl⟩ := List.mem_map.mp he
      cases hpattern
      exact (huncovered _ hn).1
  · rw [List.pairwise_append]
    refine ⟨hheads.distinct, ?_, ?_⟩
    · -- the new arms name different variants, none twice
      rw [List.pairwise_map]
      have hdistinct : names.Nodup := hnames.nodup_iff.mpr (nodup_uncovered hnodup heads)
      refine hdistinct.imp ?_
      intro a b hne name hb ha
      cases hb
      cases ha
      exact hne rfl
    · intro e he e' he' name hpattern
      obtain ⟨n, hn, rfl⟩ := List.mem_map.mp he'
      cases hpattern
      exact (huncovered _ hn).2 e he
  · intro e he
    rcases List.mem_append.mp he with he | he
    · exact hheads.fits e he
    · obtain ⟨name, -, rfl⟩ := List.mem_map.mp he
      exact hbinder _

/-- Arms for all variants that are left uncovered leave nothing out. -/
theorem exhausts_spelled_out (hnames : names.Perm (t.uncovered heads)) :
    t.Exhausts (heads ++ names.map fun name => ⟨.variant name, binder⟩) := by
  refine .inr fun name hname => ?_
  -- a variant is named by an arm before the wildcard, or one has been written for it
  by_cases hnamed : ∃ e ∈ heads, e.pattern = .variant name
  · obtain ⟨e, he, hpattern⟩ := hnamed
    exact ⟨e, List.mem_append_left _ he, hpattern⟩
  · have huncovered : name ∈ t.uncovered heads :=
      mem_uncovered_iff.mpr ⟨hname, fun e he hpattern => hnamed ⟨e, he, hpattern⟩⟩
    refine ⟨⟨.variant name, binder⟩, List.mem_append_right _ ?_, rfl⟩
    exact List.mem_map_of_mem (hnames.mem_iff.mpr huncovered)

end EnumType

section SpelledOut

variable {R : Type} {arms : List (Arm R)} {binder : Binder} {body : Bindings → R}
  {names : List String}

theorem Arm.map_head_spelled_out :
    (arms ++ names.map fun name => Arm.on name binder body).map (·.head)
      = arms.map (·.head) ++ names.map fun name => ⟨.variant name, binder⟩ := by
  rw [List.map_append, List.map_map]
  rfl

/-- An arm before a wildcard names what it takes. -/
theorem Plan.Fires.pattern_of_before {p : Plan} {v : EnumValue} (htype : v.type.WellFormed)
    (hp : compile v.type ((arms ++ [Arm.otherwise binder body]).map (·.head)) = .ok p) {i : Nat}
    {arm : Arm R} {b : Bindings} (h : p.Fires (arms ++ [Arm.otherwise binder body]) v i arm b)
    (harm : arm ∈ arms) : arm.head.pattern = .variant v.variantName := by
  rcases (armFor?_eq_some_iff_takes htype hp h.arm_eq).mp h.entry with hnamed | ⟨hwildcard, -⟩
  · exact hnamed
  · -- a wildcard before the last one would not be accepted
    have hacc := accepts_of_compile htype hp
    rw [List.map_append] at hacc
    have hadm := (EnumType.accepts_concat_iff.mp hacc).2
    exact absurd hwildcard (hadm.reachable _ (List.mem_map_of_mem harm))

/-- A wildcard at the end takes only what the arms before it leave uncovered. -/
theorem Plan.Fires.mem_uncovered {p : Plan} {v : EnumValue} (htype : v.type.WellFormed)
    (hp : compile v.type ((arms ++ [Arm.otherwise binder body]).map (·.head)) = .ok p) {i : Nat}
    {b : Bindings}
    (h : p.Fires (arms ++ [Arm.otherwise binder body]) v i (Arm.otherwise binder body) b) :
    v.variantName ∈ v.type.uncovered (arms.map (·.head)) := by
  rcases (armFor?_eq_some_iff_takes htype hp h.arm_eq).mp h.entry with hcontra | ⟨-, hnone⟩
  · cases hcontra
  refine EnumType.mem_uncovered_iff.mpr ⟨List.mem_map_of_mem (List.getElem_mem _), ?_⟩
  intro e he
  rw [List.map_append] at hnone
  exact hnone e (List.mem_append_left _ he)

/-- An arm before the wildcard fires in both lists, at the same place. For the wildcard fires the arm
that has been written for the variant. -/
theorem Plan.Fires.spelled_out {p p' : Plan} {v : EnumValue} (htype : v.type.WellFormed)
    (hp : compile v.type ((arms ++ [Arm.otherwise binder body]).map (·.head)) = .ok p)
    (hp' : compile v.type
      ((arms ++ names.map fun name => Arm.on name binder body).map (·.head)) = .ok p')
    (hnames : names.Perm (v.type.uncovered (arms.map (·.head)))) {i : Nat} {arm : Arm R}
    {b : Bindings} (h : p.Fires (arms ++ [Arm.otherwise binder body]) v i arm b) :
    (i < arms.length ∧
        p'.Fires (arms ++ names.map fun name => Arm.on name binder body) v i arm b) ∨
      (i = arms.length ∧ arm = Arm.otherwise binder body ∧ ∃ k < names.length,
        p'.Fires (arms ++ names.map fun name => Arm.on name binder body) v (arms.length + k)
          (Arm.on v.variantName binder body) b) := by
  by_cases hlt : i < arms.length
  · have harm : arms[i]? = some arm := by
      rw [← List.getElem?_append_left hlt]
      exact h.arm_eq
    -- the arm stands before the wildcard, so it names the variant and takes it in both lists
    have hpattern := h.pattern_of_before htype hp (List.mem_of_getElem? harm)
    refine .inl ⟨hlt, h.transfer htype hp hp' ?_ (.inl hpattern) fun _ hresolve => hresolve⟩
    rw [List.getElem?_append_left hlt, harm]
  · obtain ⟨hle, -⟩ := List.getElem?_eq_some_iff.mp h.arm_eq
    rw [List.length_append, List.length_singleton] at hle
    obtain rfl : i = arms.length := by omega
    have harm := h.arm_eq
    rw [List.getElem?_concat_length] at harm
    cases harm
    -- the wildcard fires, so the variant is uncovered and an arm has been written for it
    have huncovered := h.mem_uncovered htype hp
    obtain ⟨k, hk⟩ := List.mem_iff_getElem?.mp (hnames.mem_iff.mpr huncovered)
    obtain ⟨hklt, -⟩ := List.getElem?_eq_some_iff.mp hk
    refine .inr ⟨rfl, rfl, k, hklt, h.transfer htype hp hp' ?_ (.inl rfl) ?_⟩
    · rw [List.getElem?_append_right (by omega), Nat.add_sub_cancel_left, List.getElem?_map, hk]
      rfl
    · intro rb hresolve
      exact Binder.resolve_of_wildcard hresolve _

/-- A wildcard is shorthand for the variants that no arm names. Take a registered type and an accepted
list of arms with a wildcard at the end, and write instead of the wildcard, in any order, an arm for each
variant that the arms before it do not name, with the same binder and the same body. The list is
accepted again. Any instance of the type that clients can hold reaches the same arm as before, or instead
of the wildcard the arm that was written for its variant; the bindings are the same, and matching it
comes to the same body. -/
theorem World.Reachable.wildcard_is_shorthand {w : World} (hw : w.Reachable) {type : EnumType}
    (ht : type ∈ w.session.registry.types) {p : Plan}
    (hp : Plan.compile type ((arms ++ [Arm.otherwise binder body]).map (·.head)) = .ok p)
    (hnames : names.Perm (type.uncovered (arms.map (·.head)))) :
    ∃ p', Plan.compile type
        ((arms ++ names.map fun name => Arm.on name binder body).map (·.head)) = .ok p' ∧
      ∀ v ∈ w.held, v.type = type →
        ∃ i j arm arm' b, p.Fires (arms ++ [Arm.otherwise binder body]) v i arm b ∧
          p'.Fires (arms ++ names.map fun name => Arm.on name binder body) v j arm' b ∧
          ((i < arms.length ∧ j = i ∧ arm' = arm) ∨
            (i = arms.length ∧ arms.length ≤ j ∧ arm = Arm.otherwise binder body ∧
              arm' = Arm.on v.variantName binder body)) ∧
          ∀ m : Matcher, m = w.session.matcher ∨ m.Reachable w.session.registry →
            (m.evaluate v (arms ++ [Arm.otherwise binder body])).1 = .ok (arm.body b) ∧
            (m.evaluate v (arms ++ names.map fun name => Arm.on name binder body)).1
              = .ok (arm.body b) := by
  have hcon := hw.sound.registry.consistent
  have htype : type.WellFormed := hcon.wellFormed type ht
  have hacc := Plan.accepts_of_compile htype hp
  rw [List.map_append] at hacc
  obtain ⟨p', hp'⟩ : ∃ p', Plan.compile type
      ((arms ++ names.map fun name => Arm.on name binder body).map (·.head)) = .ok p' := by
    rw [Arm.map_head_spelled_out, Plan.exists_compile_iff htype]
    exact ⟨EnumType.accepts_spelled_out htype.names_nodup hacc hnames,
      EnumType.exhausts_spelled_out hnames⟩
  refine ⟨p', hp', ?_⟩
  rintro v hv rfl
  obtain ⟨i, arm, b, hfires⟩ := Plan.exists_fires hcon (hw.sound.held v hv) hp
  rcases hfires.spelled_out htype hp hp' hnames with
    ⟨hlt, hfires'⟩ | ⟨rfl, rfl, k, -, hfires'⟩
  · refine ⟨i, i, arm, arm, b, hfires, hfires', .inl ⟨hlt, rfl, rfl⟩, ?_⟩
    intro m hm
    exact ⟨hw.evaluate_of_fires hv hm hp hfires, hw.evaluate_of_fires hv hm hp' hfires'⟩
  · refine ⟨_, _, _, _, b, hfires, hfires', .inr ⟨rfl, Nat.le_add_right _ k, rfl, rfl⟩, ?_⟩
    intro m hm
    -- the two arms have one body
    have hevaluate' := hw.evaluate_of_fires hv hm hp' hfires'
    exact ⟨hw.evaluate_of_fires hv hm hp hfires, hevaluate'⟩

end SpelledOut

/-- The wildcard takes the message as a whole, and so does the arm that is written for texts. -/
theorem World.Reachable.wildcard_is_shorthand_messages :
    let onQuit : Arm (List String) := .on "Quit" .ignore fun _ => []
    ∃ p p' b, Plan.Fires p ([onQuit] ++ [.otherwise (.whole "rest") Bindings.names]) written 1
        (.otherwise (.whole "rest") Bindings.names) b ∧
      Plan.Fires p' ([onQuit] ++ ["Write", "Move"].map fun name =>
        .on name (.whole "rest") Bindings.names) written 1
        (.on "Write" (.whole "rest") Bindings.names) b := by
  intro onQuit
  have ht : Registry.message ∈ messages.session.registry.types := List.mem_cons_self
  have hheld : written ∈ messages.held := by simp [messages]
  have hp : Plan.compile Registry.message
      (([onQuit] ++ [Arm.otherwise (.whole "rest") Bindings.names]).map (·.head))
      = .ok ⟨Registry.message, [0, 1, 1], [.nothing, .whole "rest"]⟩ := rfl
  have hnames : ["Write", "Move"].Perm
      (Registry.message.uncovered ([onQuit].map (·.head))) := .swap _ _ _
  obtain ⟨p', hp', hfires⟩ := reachable_messages.wildcard_is_shorthand ht hp hnames
  obtain ⟨i, j, arm, arm', b, hi, hj, -, -⟩ := hfires written hheld rfl
  have hplan : Plan.compile Registry.message
      (([onQuit] ++ ["Write", "Move"].map fun name =>
        Arm.on name (.whole "rest") Bindings.names).map (·.head))
      = .ok ⟨Registry.message, [0, 2, 1], [.nothing, .whole "rest", .whole "rest"]⟩ := rfl
  obtain rfl := Except.ok.inj (hplan.symm.trans hp')
  obtain rfl : 1 = i := Option.some.inj hi.entry
  obtain rfl : 1 = j := Option.some.inj hj.entry
  obtain rfl : Arm.otherwise (.whole "rest") Bindings.names = arm := Option.some.inj hi.arm_eq
  obtain rfl : Arm.on "Write" (.whole "rest") Bindings.names = arm' := Option.some.inj hj.arm_eq
  exact ⟨_, _, b, hi, hj⟩

end TaggedUnion
