import TaggedUnion.Text.Names

/-!
# First defects

Much is checked by going through a list and stopping at the first element with which something is wrong,
where an element may be wrong because of those before it: a name that is given twice is wrong at its
second place. What such a scan reports is said here of the list alone.

* `FirstDefect`: what is wrong with the first element that is not in order.
* `firstDefect_cons_iff`: the step of a scan. The elements passed are added to those before.
* `mem_seen_concat_iff`: a scan that keeps the names seen keeps those of the elements passed.
* `Text.FirstRepeat`, `Text.firstRepeat?_eq_some_iff`: the first name that is given again.
-/

namespace TaggedUnion

variable {α ε : Type} {defect : List α → α → ε → Prop} {earlier xs : List α} {x : α} {e : ε}

/-- `e` is what is wrong with the first element of `xs` with which anything is. `defect` says what is wrong
with an element, given those before it, and before the first of them stand `earlier`. -/
def FirstDefect (defect : List α → α → ε → Prop) (earlier xs : List α) (e : ε) : Prop :=
  ∃ (k : Nat) (x : α), xs[k]? = some x ∧
    (∀ (j : Nat) (y : α), j < k → xs[j]? = some y → ∀ e', ¬ defect (earlier ++ xs.take j) y e') ∧
    defect (earlier ++ xs.take k) x e

theorem not_firstDefect_nil : ¬ FirstDefect defect earlier [] e := by
  rintro ⟨k, x, hk, -⟩
  cases hk

/-- The first element is wrong, or it is in order and the first defect is one of the others. -/
theorem firstDefect_cons_iff :
    FirstDefect defect earlier (x :: xs) e ↔
      defect earlier x e ∨ (∀ e', ¬ defect earlier x e') ∧ FirstDefect defect (earlier ++ [x]) xs e := by
  -- the elements before the next one are this one and those passed of the rest
  have htake : ∀ k, earlier ++ (x :: xs).take (k + 1) = earlier ++ [x] ++ xs.take k := by simp
  constructor
  · rintro ⟨k, y, hk, hbefore, hdefect⟩
    cases k with
    | zero =>
      obtain rfl : x = y := Option.some.inj hk
      exact .inl (by simpa using hdefect)
    | succ k =>
      refine .inr ⟨by simpa using hbefore 0 x (Nat.succ_pos k) rfl, k, y, hk, ?_, htake k ▸ hdefect⟩
      intro j z hj hz
      rw [← htake j]
      exact hbefore (j + 1) z (Nat.succ_lt_succ hj) hz
  · rintro (hdefect | ⟨hx, k, y, hk, hbefore, hdefect⟩)
    · refine ⟨0, x, rfl, ?_, by simpa using hdefect⟩
      intro j _ hj
      omega
    · refine ⟨k + 1, y, hk, ?_, (htake k).symm ▸ hdefect⟩
      intro j z hj hz
      cases j with
      | zero =>
        obtain rfl : x = z := Option.some.inj hz
        simpa using hx
      | succ j =>
        rw [htake j]
        exact hbefore j z (Nat.lt_of_succ_lt_succ hj) hz

/-- A scan that puts each name in front of those seen has seen the names of the elements passed. -/
theorem mem_seen_concat_iff {name : α → String} {seen : List String}
    (hseen : ∀ n, n ∈ seen ↔ n ∈ earlier.map name) (x : α) (n : String) :
    n ∈ name x :: seen ↔ n ∈ (earlier ++ [x]).map name := by
  rw [List.mem_cons, hseen, List.map_append, List.mem_append, List.map_singleton, List.mem_singleton,
    or_comm]

namespace Text

/-- A name is wrong if it is among those before it. -/
def Repeats (earlier : List String) (name repeated : String) : Prop :=
  name ∈ earlier ∧ repeated = name

/-- `name` is the first name of the list that occurred earlier in it. -/
def FirstRepeat (names : List String) (name : String) : Prop :=
  FirstDefect Repeats [] names name

/-- The scan stops at the first name that stands before it, in the list or among those seen. -/
theorem firstRepeatAfter?_eq_some_iff {seen earlier names : List String} {name : String}
    (hseen : ∀ x, x ∈ seen ↔ x ∈ earlier) :
    firstRepeatAfter? seen names = some name ↔ FirstDefect Repeats earlier names name := by
  induction names generalizing seen earlier with
  | nil => simp [firstRepeatAfter?, not_firstDefect_nil]
  | cons x xs ih =>
    have hseen' : ∀ y, y ∈ x :: seen ↔ y ∈ earlier ++ [x] := by
      intro y
      rw [List.mem_cons, List.mem_append, List.mem_singleton, hseen, or_comm]
    rw [firstRepeatAfter?, firstDefect_cons_iff, ← ih hseen']
    unfold Repeats
    rw [← hseen x]
    by_cases hx : x ∈ seen
    · simp [hx, eq_comm]
    · simp [hx]

/-- The scan for a repeated name finds the first one. -/
theorem firstRepeat?_eq_some_iff {names : List String} {name : String} :
    firstRepeat? names = some name ↔ FirstRepeat names name :=
  firstRepeatAfter?_eq_some_iff (by simp)

end Text

end TaggedUnion
