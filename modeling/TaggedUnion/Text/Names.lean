/-!
# Lists of names

Field names and binding names must each be distinct within their owner. `firstRepeat?` finds the
name to complain about, and finds none exactly when they are (`firstRepeat?_eq_none_iff`).
-/

namespace TaggedUnion.Text

/-- The first name of a list that is among `seen` or stands earlier in the list. -/
def firstRepeatAfter? (seen : List String) : List String → Option String
  | [] => none
  | x :: xs => if x ∈ seen then some x else firstRepeatAfter? (x :: seen) xs

/-- The first name that occurred earlier in the list. -/
def firstRepeat? (names : List String) : Option String :=
  firstRepeatAfter? [] names

theorem firstRepeatAfter?_eq_none_iff {seen names : List String} :
    firstRepeatAfter? seen names = none ↔ names.Nodup ∧ ∀ x ∈ names, x ∉ seen := by
  induction names generalizing seen with
  | nil => simp [firstRepeatAfter?]
  | cons x xs ih =>
    by_cases hx : x ∈ seen
    · simp [firstRepeatAfter?, hx]
    · simp only [firstRepeatAfter?, hx, if_false, ih, List.nodup_cons, List.mem_cons]
      grind

/-- A list has no first repeat exactly when its names are distinct. -/
theorem firstRepeat?_eq_none_iff {names : List String} :
    firstRepeat? names = none ↔ names.Nodup := by
  simp [firstRepeat?, firstRepeatAfter?_eq_none_iff]

end TaggedUnion.Text
