import TaggedUnion.Match.Matcher
import TaggedUnion.Proofs.Match.Compile

/-!
# The plans that a matcher keeps

A matcher answers from the plans that it has kept, and what it has kept depends on everything asked
of it before. None of this shows in its answers.

* `Matcher.Sound`: each plan kept is the one that compiling yields now.
* `Matcher.answer_plan_of_sound`, `Matcher.sound_plan`: one request of a sound matcher.
* `Matcher.Request`, `Matcher.serve`, `Matcher.serveAll`: what clients ask, one by one and in a row.
* `Matcher.Reachable`: the matchers that requests bring about; all of them are sound.
* `Matcher.answers_independent_of_cache`: a row of requests is answered as if each compiled its arms
  anew.
-/

namespace TaggedUnion

namespace Matcher

/-- Each plan kept is the one that compiling yields for the type of that identity. -/
def Sound (r : Registry) (m : Matcher) : Prop :=
  ∀ key plan, (key, plan) ∈ m.plans →
    ∃ t ∈ r.types, t.id = key.type ∧ Plan.compile t key.heads = .ok plan

section Step

variable {R : Type} {r : Registry} {m : Matcher} {type : EnumType} {heads : List ArmHead}

theorem sound_new (capacity : Nat) : Sound r ⟨capacity, []⟩ := by
  intro key plan hmem
  cases hmem

/-- A plan that is found is the one that compiling yields. -/
theorem compile_of_lookup (hr : r.Consistent) (h : m.Sound r) (ht : type ∈ r.types) {p : Plan}
    (hlookup : m.plans.lookup ⟨type.id, heads⟩ = some p) : Plan.compile type heads = .ok p := by
  obtain ⟨t, ht', hid, hplan⟩ := h _ _ (mem_of_lookup_eq_some hlookup)
  -- no other registered type has this identity, so the plan was not made for another type
  have heq : t = type := hr.eq_of_id_eq ht' ht hid
  rw [← heq]
  exact hplan

/-- Keeping a plan that was just compiled is sound. -/
theorem sound_keep (h : m.Sound r) (ht : type ∈ r.types) {p : Plan}
    (hp : Plan.compile type heads = .ok p) : (m.keep ⟨type.id, heads⟩ p).Sound r := by
  unfold keep
  by_cases hroom : m.plans.length < m.capacity
  · rw [if_pos hroom]
    intro key plan hmem
    rcases List.mem_append.mp hmem with hold | hnew
    · exact h key plan hold
    · cases List.mem_singleton.mp hnew
      exact ⟨type, ht, rfl, hp⟩
  · -- a full matcher learns nothing
    rw [if_neg hroom]
    exact h

/-- A plan is the one that compiling yields, be it found or made. -/
theorem answer_plan_of_sound (hr : r.Consistent) (h : m.Sound r) (ht : type ∈ r.types) :
    (m.plan type heads).1 = Plan.compile type heads := by
  unfold plan
  cases hlookup : m.plans.lookup ⟨type.id, heads⟩ with
  | some p =>
    dsimp only
    rw [hlookup, compile_of_lookup hr h ht hlookup]
  | none =>
    dsimp only
    rw [hlookup]
    cases Plan.compile type heads <;> rfl

/-- Asking for a plan keeps the matcher sound. -/
theorem sound_plan (h : m.Sound r) (ht : type ∈ r.types) : (m.plan type heads).2.Sound r := by
  unfold plan
  cases hlookup : m.plans.lookup ⟨type.id, heads⟩ with
  | some p =>
    dsimp only
    -- the matcher is as it was
    rw [hlookup]
    exact h
  | none =>
    dsimp only
    rw [hlookup]
    cases hp : Plan.compile type heads with
    | error e =>
      -- a rejected list is not kept
      exact h
    | ok p => exact sound_keep h ht hp

/-- Evaluating is compiling and running. -/
theorem answer_evaluate_of_sound (hr : r.Consistent) (h : m.Sound r) {v : EnumValue}
    (hv : v.type ∈ r.types) (arms : List (Arm R)) :
    (m.evaluate v arms).1 = (Plan.compile v.type (arms.map (·.head))).bind (·.run v arms) := by
  show (m.plan v.type (arms.map (·.head))).1.bind _ = _
  rw [answer_plan_of_sound hr h hv]

end Step

/-! ## Rows of requests -/

/-- Something that a client asks of a matcher. Bodies of arms have results in `R`: an action, say, or
a record of the arm and of the bindings that it was given. -/
inductive Request (R : Type)
  | plan (type : EnumType) (heads : List ArmHead)
  | validate (type : EnumType) (arms : List (Arm R))
  | evaluate (v : EnumValue) (arms : List (Arm R))

/-- What a matcher says to a request. -/
inductive Answer (R : Type)
  | plan (result : Except MatchError Plan)
  | outcome (result : Except MatchError R)

namespace Request

variable {R : Type}

/-- The type that a request is about. -/
def type : Request R → EnumType
  | .plan type _ | .validate type _ => type
  | .evaluate v _ => v.type

/-- The answer to a request without any matcher: the arms are compiled afresh. -/
def fresh : Request R → Answer R
  | .plan type heads => .plan (Plan.compile type heads)
  | .validate type arms => .plan (Plan.compile type (arms.map (·.head)))
  | .evaluate v arms =>
    .outcome ((Plan.compile v.type (arms.map (·.head))).bind (·.run v arms))

end Request

variable {R : Type}

def serve (m : Matcher) : Request R → Answer R × Matcher
  | .plan type heads => let (plan, m) := m.plan type heads; (.plan plan, m)
  | .validate type arms => let (plan, m) := m.validate type arms; (.plan plan, m)
  | .evaluate v arms => let (outcome, m) := m.evaluate v arms; (.outcome outcome, m)

/-- Answers requests one after the other. -/
def serveAll (m : Matcher) : List (Request R) → List (Answer R) × Matcher
  | [] => ([], m)
  | q :: rest =>
    let (answer, m) := m.serve q
    let (answers, m) := m.serveAll rest
    (answer :: answers, m)

/-- The matchers that requests about the types of a registry bring about. -/
inductive Reachable (r : Registry) : Matcher → Prop
  | new (capacity : Nat) : Reachable r ⟨capacity, []⟩
  | serve {R : Type} {m : Matcher} (h : Reachable r m) (q : Request R) (hq : q.type ∈ r.types) :
      Reachable r (m.serve q).2

variable {r : Registry} {m : Matcher}

/-- Every request gets the answer that it would get without a matcher. -/
theorem answer_serve_of_sound (hr : r.Consistent) (h : m.Sound r) {q : Request R}
    (hq : q.type ∈ r.types) : (m.serve q).1 = q.fresh := by
  cases q with
  | plan type heads => exact congrArg Answer.plan (answer_plan_of_sound hr h hq)
  | validate type arms => exact congrArg Answer.plan (answer_plan_of_sound hr h hq)
  | evaluate v arms => exact congrArg Answer.outcome (answer_evaluate_of_sound hr h hq arms)

/-- One request keeps the matcher sound. -/
theorem sound_serve (h : m.Sound r) {q : Request R} (hq : q.type ∈ r.types) :
    (m.serve q).2.Sound r := by
  -- whatever is asked, the matcher changes as it does for a plan
  cases q with
  | plan type heads => exact sound_plan h hq
  | validate type arms => exact sound_plan h hq
  | evaluate v arms => exact sound_plan h hq

theorem Reachable.sound (h : m.Reachable r) : m.Sound r := by
  induction h with
  | new capacity => exact sound_new capacity
  | serve _ q hq ih => exact sound_serve ih hq

/-- A matcher stays reachable as types are registered. -/
theorem Reachable.mono {r' : Registry} (hgrows : r.types <+: r'.types) (h : m.Reachable r) :
    m.Reachable r' := by
  induction h with
  | new capacity => exact .new capacity
  | serve _ q hq ih => exact .serve ih q (hgrows.subset hq)

/-- A row of requests: induction on the row, with the matcher changing from one to the next. -/
theorem serveAll_of_sound (hr : r.Consistent) (h : m.Sound r) {requests : List (Request R)}
    (hrequests : ∀ q ∈ requests, q.type ∈ r.types) :
    (m.serveAll requests).1 = requests.map Request.fresh ∧ (m.serveAll requests).2.Sound r := by
  induction requests generalizing m with
  | nil => exact ⟨rfl, h⟩
  | cons q rest ih =>
    have hq : q.type ∈ r.types := hrequests q List.mem_cons_self
    obtain ⟨hanswers, hsound⟩ := ih (sound_serve h hq) fun q' hq' =>
      hrequests q' (List.mem_cons_of_mem _ hq')
    refine ⟨?_, hsound⟩
    show (m.serve q).1 :: ((m.serve q).2.serveAll rest).1 = _
    rw [answer_serve_of_sound hr h hq, hanswers]
    rfl

/-- Keeping plans shows in no answer. Whatever the capacity, a row of requests gets the answers of a
matcher that keeps nothing, which are those of compiling the arms each time; and what is kept in the
end under an identity and heads is what compiling yields for the type of this identity. Types may be
registered between the requests: they stay registered, so `r` stands for the registry in the end.
Identities count on without end here, where a counter of 32 bits would come to its end after `2 ^ 32`
types. -/
theorem answers_independent_of_cache (hr : r.Reachable) (capacity : Nat)
    {requests : List (Request R)} (hrequests : ∀ q ∈ requests, q.type ∈ r.types) :
    (serveAll ⟨capacity, []⟩ requests).1 = (serveAll uncached requests).1 ∧
      (serveAll ⟨capacity, []⟩ requests).1 = requests.map Request.fresh ∧
      ∀ key plan, (key, plan) ∈ (serveAll ⟨capacity, []⟩ requests).2.plans →
        (∃ t ∈ r.types, t.id = key.type) ∧
          ∀ t ∈ r.types, t.id = key.type → Plan.compile t key.heads = .ok plan := by
  have hcon := hr.consistent
  obtain ⟨hanswers, hsound⟩ := serveAll_of_sound hcon (sound_new capacity) hrequests
  obtain ⟨huncached, -⟩ := serveAll_of_sound hcon (m := uncached) (sound_new 0) hrequests
  refine ⟨hanswers.trans huncached.symm, hanswers, ?_⟩
  intro key plan hmem
  obtain ⟨t, ht, hid, hplan⟩ := hsound key plan hmem
  refine ⟨⟨t, ht, hid⟩, ?_⟩
  intro u hu hid'
  -- the registry has one type of this identity
  have heq : u = t := hcon.eq_of_id_eq hu ht (hid'.trans hid.symm)
  rw [heq]
  exact hplan

/-- Requests that find a plan, fail, and come when there is no more room. -/
def messageRequests : List (Request (Nat × Bindings)) :=
  let onWrite : List (Arm (Nat × Bindings)) :=
    [.on "Write" (.positional ["text"]) fun b => (0, b), .otherwise .ignore fun b => (1, b)]
  [.validate Registry.message onWrite, .plan Registry.message [⟨.variant "Quit", .ignore⟩],
    .plan Registry.message [⟨.wildcard, .ignore⟩],
    .evaluate ⟨Registry.message, ⟨2, by decide⟩, [.text "hello"]⟩ onWrite]

/-- With room for one plan, the row of requests about messages gets the answers of no plans kept. -/
theorem answers_independent_of_cache_message :
    (serveAll ⟨1, []⟩ messageRequests).2.cachedPlans = 1 ∧
      (serveAll ⟨1, []⟩ messageRequests).1 = (serveAll uncached messageRequests).1 := by
  have hrequests : ∀ q ∈ messageRequests, q.type ∈ [Registry.message] := by
    intro q hq
    simp only [messageRequests, List.mem_cons, List.not_mem_nil, or_false] at hq
    rcases hq with rfl | rfl | rfl | rfl <;> exact List.mem_singleton.mpr rfl
  exact ⟨rfl, (answers_independent_of_cache Registry.reachable_message 1 hrequests).1⟩

end Matcher

end TaggedUnion
