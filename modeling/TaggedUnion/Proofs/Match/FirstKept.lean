import TaggedUnion.Proofs.Match.Cache

/-!
# Which plans are kept

A matcher keeps the plans of the questions that it was asked first, as long as it has room, and never
gives one up. So what it has kept can be said without running it: it depends on the questions alone,
their order, and which of them are accepted.

* `Matcher.Question`: what a request comes to for a matcher. `Matcher.ask`: the matcher after it;
  `Matcher.serve_eq_ask`: requests of all kinds are alike in this.
* `Matcher.firstAccepted`: the keys of the questions that are accepted, each where it occurs first.
* `Matcher.KeepsFirst`: the plans kept have the first of these keys. `Matcher.KeepsFirst.ask` is the
  step, and `Matcher.keepsFirst_askAll` the induction.
* `Matcher.prefix_askAll`: nothing kept is given up or replaced.
* `Matcher.KeepsFirst.account`: what follows for the number of plans, and for what one more question
  changes.
-/

namespace TaggedUnion

namespace Matcher

/-- A type, and heads of arms to be checked against it. -/
structure Question where
  type : EnumType
  heads : List ArmHead

namespace Question

def key (q : Question) : PlanKey :=
  ⟨q.type.id, q.heads⟩

/-- Whether the heads are those of a list of arms without defects. -/
def accepted (q : Question) : Bool :=
  (Plan.compile q.type q.heads).isOk

end Question

/-- What a request asks, whatever becomes of the answer. -/
def Request.question {R : Type} : Request R → Question
  | .plan type heads => ⟨type, heads⟩
  | .validate type arms => ⟨type, arms.map (·.head)⟩
  | .evaluate v arms => ⟨v.type, arms.map (·.head)⟩

def ask (m : Matcher) (q : Question) : Matcher :=
  (m.plan q.type q.heads).2

def askAll (m : Matcher) (asked : List Question) : Matcher :=
  asked.foldl ask m

/-- The keys of the plans kept, the oldest first. -/
def keys (m : Matcher) : List PlanKey :=
  m.plans.map (·.1)

variable {m : Matcher} {q : Question} {p : Plan} {capacity : Nat} {asked : List Question}

/-- All requests change a matcher as their questions do. -/
theorem serve_eq_ask {R : Type} (m : Matcher) (q : Request R) : (m.serve q).2 = m.ask q.question := by
  cases q <;> rfl

theorem askAll_append (m : Matcher) (asked more : List Question) :
    m.askAll (asked ++ more) = (m.askAll asked).askAll more :=
  List.foldl_append

theorem length_keys (m : Matcher) : m.keys.length = m.cachedPlans :=
  List.length_map _

/-! ## One question -/

/-- A key that is there is found, and any other question is compiled. -/
theorem ask_eq (m : Matcher) (q : Question) :
    m.ask q = if q.key ∈ m.keys then m else
      match Plan.compile q.type q.heads with
      | .error _ => m
      | .ok p => m.keep q.key p := by
  -- a plan is found exactly if its key is among the keys
  have hmem : q.key ∈ m.keys ↔ (m.plans.lookup q.key).isSome = true := by
    simp only [keys, List.mem_map, List.lookup_isSome_iff, beq_iff_eq, @eq_comm _ q.key]
  unfold ask plan
  cases hlookup : m.plans.lookup q.key with
  | some p =>
    rw [if_pos (hmem.mpr (by rw [hlookup]; rfl))]
    dsimp only [Question.key] at hlookup ⊢
    rw [hlookup]
  | none =>
    rw [if_neg (by rw [hmem, hlookup]; decide)]
    dsimp only [Question.key] at hlookup ⊢
    rw [hlookup]
    cases Plan.compile q.type q.heads <;> rfl

/-- A question whose plan is there changes nothing. -/
theorem ask_of_mem (h : q.key ∈ m.keys) : m.ask q = m := by
  rw [ask_eq, if_pos h]

theorem accepted_of_compile (hp : Plan.compile q.type q.heads = .ok p) : q.accepted = true := by
  rw [Question.accepted, hp]
  rfl

/-- A question that is new to the matcher and accepted is kept if there is room. -/
theorem ask_of_compile (hnew : q.key ∉ m.keys) (hp : Plan.compile q.type q.heads = .ok p) :
    m.ask q = m.keep q.key p := by
  rw [ask_eq, if_neg hnew, hp]

/-- A rejected question changes nothing. -/
theorem ask_of_rejected (h : q.accepted = false) : m.ask q = m := by
  rw [ask_eq]
  cases hp : Plan.compile q.type q.heads with
  | error e => simp
  | ok p =>
    rw [accepted_of_compile hp] at h
    cases h

/-- A matcher without room changes no more. -/
theorem ask_of_full (h : m.capacity ≤ m.cachedPlans) : m.ask q = m := by
  have hkeep : ∀ p, m.keep q.key p = m := fun p => if_neg (Nat.not_lt.mpr h)
  rw [ask_eq]
  cases Plan.compile q.type q.heads <;> simp [hkeep]

/-- A question at most adds a plan after those that are kept. -/
theorem prefix_ask (m : Matcher) (q : Question) : m.plans <+: (m.ask q).plans := by
  rw [ask_eq]
  by_cases hmem : q.key ∈ m.keys
  · rw [if_pos hmem]
  · rw [if_neg hmem]
    cases Plan.compile q.type q.heads with
    | error e => exact List.prefix_refl _
    | ok p =>
      dsimp only [keep]
      by_cases hroom : m.plans.length < m.capacity
      · rw [if_pos hroom]
        exact List.prefix_append _ _
      · rw [if_neg hroom]

/-- Plans stay in their place, whatever is asked. Induction on the questions. -/
theorem prefix_askAll (m : Matcher) (asked : List Question) :
    m.plans <+: (m.askAll asked).plans := by
  induction asked generalizing m with
  | nil => exact List.prefix_refl _
  | cons q asked ih => exact (prefix_ask m q).trans (ih (m.ask q))

/-! ## Questions in a row -/

/-- The keys of the questions that are accepted, each once and in the order in which they were first
asked. -/
def firstAccepted (asked : List Question) : List PlanKey :=
  ((asked.filter (·.accepted)).map (·.key)).eraseDups

/-- A key is listed if some accepted question has it. -/
theorem mem_firstAccepted {key : PlanKey} :
    key ∈ firstAccepted asked ↔ ∃ q ∈ asked, q.accepted = true ∧ q.key = key := by
  simp [firstAccepted, List.mem_eraseDups, and_assoc]

/-- One more question adds its key, if it is accepted and the key is new. -/
theorem firstAccepted_concat (asked : List Question) (q : Question) :
    firstAccepted (asked ++ [q]) =
      if q.accepted = true ∧ q.key ∉ firstAccepted asked then firstAccepted asked ++ [q.key]
      else firstAccepted asked := by
  unfold firstAccepted
  rw [List.filter_append, List.map_append, List.eraseDups_append]
  cases haccepted : q.accepted with
  | false => simp [haccepted]
  | true =>
    -- an accepted question, asked before or not
    by_cases hmem : q.key ∈ (asked.filter (·.accepted)).map (·.key)
    · simp [haccepted, List.mem_eraseDups, hmem, List.removeAll]
    · simp [haccepted, List.mem_eraseDups, hmem, List.removeAll, List.eraseDups_cons]

/-- No key is listed twice. Induction on the last question. -/
theorem nodup_firstAccepted (asked : List Question) : (firstAccepted asked).Nodup := by
  induction asked using List.reverseRecOn with
  | nil => exact List.nodup_nil
  | append_singleton asked q ih =>
    rw [firstAccepted_concat]
    by_cases hnew : q.accepted = true ∧ q.key ∉ firstAccepted asked
    · rw [if_pos hnew, ← List.concat_eq_append]
      exact ih.concat hnew.2
    · rw [if_neg hnew]
      exact ih

/-- A matcher that was asked `asked` has kept the plans for the first keys that were accepted, as many
as it has room for. -/
structure KeepsFirst (capacity : Nat) (asked : List Question) (m : Matcher) : Prop where
  capacity_eq : m.capacity = capacity
  keys_eq : m.keys = (firstAccepted asked).take capacity

namespace KeepsFirst

/-- There are as many plans as keys, up to the capacity. -/
theorem cachedPlans_eq (h : KeepsFirst capacity asked m) :
    m.cachedPlans = min capacity (firstAccepted asked).length := by
  rw [← length_keys, h.keys_eq, List.length_take]

/-- While there is room, all keys that were accepted are there. -/
theorem keys_eq_of_room (h : KeepsFirst capacity asked m) (hroom : m.cachedPlans < capacity) :
    m.keys = firstAccepted asked := by
  have hcount := h.cachedPlans_eq
  rw [h.keys_eq, List.take_of_length_le (by omega)]

/-- A question that changes neither the plans nor the first keys. -/
theorem ask_of_unchanged (h : KeepsFirst capacity asked m) (hask : m.ask q = m)
    (hfirst : (firstAccepted (asked ++ [q])).take capacity = (firstAccepted asked).take capacity) :
    KeepsFirst capacity (asked ++ [q]) (m.ask q) := by
  rw [hask]
  exact ⟨h.capacity_eq, by rw [hfirst, h.keys_eq]⟩

/-- The step. There are four kinds of questions: one whose plan is there, one that is rejected, one
that is kept, and one for which there is no room. -/
theorem ask (h : KeepsFirst capacity asked m) (q : Question) :
    KeepsFirst capacity (asked ++ [q]) (m.ask q) := by
  have hconcat := firstAccepted_concat asked q
  by_cases hmem : q.key ∈ m.keys
  · -- the plan is there, so the key was accepted before
    have hold : q.key ∈ firstAccepted asked := List.mem_of_mem_take (h.keys_eq ▸ hmem)
    rw [if_neg fun hnew => hnew.2 hold] at hconcat
    exact h.ask_of_unchanged (ask_of_mem hmem) (by rw [hconcat])
  cases hp : Plan.compile q.type q.heads with
  | error e =>
    have hrejected : q.accepted = false := by
      rw [Question.accepted, hp]
      rfl
    rw [if_neg (by simp [hrejected])] at hconcat
    exact h.ask_of_unchanged (ask_of_rejected hrejected) (by rw [hconcat])
  | ok p =>
    have hcount := h.cachedPlans_eq
    by_cases hroom : m.cachedPlans < capacity
    · -- there is room, so the keys are all that were accepted, and this one is new
      have hkeys := h.keys_eq_of_room hroom
      rw [if_pos ⟨accepted_of_compile hp, hkeys ▸ hmem⟩] at hconcat
      rw [ask_of_compile hmem hp, keep, if_pos (h.capacity_eq ▸ hroom)]
      refine ⟨h.capacity_eq, ?_⟩
      rw [hconcat, List.take_of_length_le (by simp; omega), ← hkeys]
      simp [keys]
    · -- the key comes after those that there is room for, if it has not been asked for before
      refine h.ask_of_unchanged (ask_of_full (by rw [h.capacity_eq]; omega)) ?_
      rw [hconcat]
      by_cases hnew : q.accepted = true ∧ q.key ∉ firstAccepted asked
      · rw [if_pos hnew, List.take_append_of_le_length (by omega)]
      · rw [if_neg hnew]

end KeepsFirst

/-- Questions in a row: induction on the last one, the step is `KeepsFirst.ask`. -/
theorem keepsFirst_askAll (capacity : Nat) (asked : List Question) :
    KeepsFirst capacity asked (askAll ⟨capacity, []⟩ asked) := by
  induction asked using List.reverseRecOn with
  | nil => exact ⟨rfl, by simp [keys, askAll, firstAccepted]⟩
  | append_singleton asked q ih =>
    rw [askAll_append]
    exact ih.ask q

/-- What can be said of the plans kept by a matcher of a capacity that was asked `asked`. -/
structure Account (capacity : Nat) (asked : List Question) (m : Matcher) : Prop where
  keys_eq : m.keys = (firstAccepted asked).take capacity
  distinct : m.keys.Nodup
  cachedPlans_eq : m.cachedPlans = min capacity (firstAccepted asked).length
  unchanged : ∀ q, q ∈ asked ∨ q.accepted = false ∨ capacity ≤ m.cachedPlans → m.ask q = m
  added : ∀ q p, q.key ∉ firstAccepted asked → Plan.compile q.type q.heads = .ok p →
    m.cachedPlans < capacity → (m.ask q).plans = m.plans ++ [(q.key, p)]

/-- All of the account follows from which keys are kept. -/
theorem KeepsFirst.account (h : KeepsFirst capacity asked m) : Account capacity asked m where
  keys_eq := h.keys_eq
  distinct := by
    rw [h.keys_eq]
    exact (nodup_firstAccepted asked).sublist (List.take_sublist _ _)
  cachedPlans_eq := h.cachedPlans_eq
  unchanged := by
    intro q hq
    by_cases hroom : m.cachedPlans < capacity
    · cases haccepted : q.accepted with
      | false => exact ask_of_rejected haccepted
      | true =>
        -- there is room and the question is accepted, so it was asked before
        have hold : q ∈ asked := by
          rcases hq with hold | hrejected | hfull
          · exact hold
          · rw [haccepted] at hrejected
            cases hrejected
          · omega
        apply ask_of_mem
        rw [h.keys_eq_of_room hroom]
        exact mem_firstAccepted.mpr ⟨q, hold, haccepted, rfl⟩
    · exact ask_of_full (by rw [h.capacity_eq]; omega)
  added := by
    intro q p hnew hp hroom
    rw [ask_of_compile (by rw [h.keys_eq_of_room hroom]; exact hnew) hp, keep,
      if_pos (h.capacity_eq ▸ hroom)]

end Matcher

end TaggedUnion
