import TaggedUnion.Proofs.Match.Rewriting
import TaggedUnion.Proofs.Match.Typing

/-!
# Taking bindings

The body of an arm can read a name any number of times and take it once. Taking closes the gap with the last
entry, so that the others may change places. Here is what a body can tell of it.

* `Bindings.Use`, `Bindings.use`, `Bindings.after`: what a body does with its bindings, once and in a row.
* `Bindings.use_take_cases`: all that taking a name can do.
* `Bindings.LeftOf`: the invariant. What is left are the entries whose names were not taken, in some order.
* `Bindings.LeftOf.use`, `Bindings.leftOf_after`: one use keeps it, and so does a row of uses.
* `Bindings.BoundTo`: what comes of each use of a name that is bound to a value.
* `Bindings.answer_after_of_gone`, `Bindings.boundTo_after`: what comes of a use, whatever was done before. A
  name that was taken is not bound, and the others are bound to what they were bound to at first.
* `Bindings.names_use_eq_iff`, `Bindings.inOrder_iff_takesFromEnd`: when the names stay in the order of the
  binder, over one use and over a row of uses.
* `World.Reachable.taking_loses_nothing`, `World.Reachable.names_after_takes`: the bindings that a match
  hands to a body.
-/

namespace TaggedUnion

namespace Bindings

/-! ## Using bindings -/

/-- What the body of an arm can do with its bindings: look a name up, read it, as any value or as one kind
of value, or take it. -/
inductive Use
  | get (name : String)
  | value (name : String)
  | read (getter : Getter) (name : String)
  | take (name : String)

namespace Use

/-- What comes of a use. -/
@[reducible] def Answer : Use → Type
  | .get _ => Option Value
  | .value _ => Except MatchError Value
  | .read getter _ => Except MatchError getter.Result
  | .take _ => Except MatchError Value

def name : Use → String
  | .get name | .value name | .read _ name | .take name => name

/-- What comes of the use of a name that is not bound. -/
def unbound : (u : Use) → u.Answer
  | .get _ => none
  | .value name => .error (.unboundName name)
  | .read _ name => .error (.unboundName name)
  | .take name => .error (.unboundName name)

/-- The name that the use is to take. -/
def taken? : Use → Option String
  | .take name => some name
  | _ => none

end Use

/-- What comes of one use, and the bindings after it. They are others only if a name was taken. -/
def use (b : Bindings) : (u : Use) → u.Answer × Bindings
  | .get name => (b.get? name, b)
  | .value name => (b.value name, b)
  | .read getter name => (getter.read b name, b)
  | .take name => b.take name

/-- The bindings after a row of uses. -/
def after (b : Bindings) (uses : List Use) : Bindings :=
  uses.foldl (fun b u => (b.use u).2) b

/-- The names that a row of uses is to take. -/
def taken (uses : List Use) : List String :=
  uses.filterMap Use.taken?

variable {b rest : Bindings} {gone : List String} {uses : List Use}

theorem after_concat (u : Use) : b.after (uses ++ [u]) = ((b.after uses).use u).2 := by
  unfold after
  rw [List.foldl_append]
  rfl

/-- One more use takes one more name, or none. -/
theorem taken_concat (u : Use) : taken (uses ++ [u]) = taken uses ++ u.taken?.toList := by
  unfold taken
  rw [List.filterMap_append]
  cases u <;> rfl

/-! ## Closing the gap -/

section Gap

variable {α : Type} {front : List α} {last x : α} {k : Nat}

/-- The last entry takes the place of the one that is taken out. If that is the last itself, there is no
gap. -/
theorem removeAt_concat (front : List (String × Value)) (last : String × Value) (k : Nat) :
    removeAt (front ++ [last]) k = front.set k last := by
  have hself : ∀ j, [last].set j last = [last] := by
    intro j
    cases j <;> rfl
  unfold removeAt
  rw [List.getLast?_concat]
  show ((front ++ [last]).set k last).dropLast = _
  rw [List.set_append]
  by_cases hk : k < front.length
  · rw [if_pos hk, List.dropLast_concat]
  · rw [if_neg hk, hself, List.dropLast_concat, List.set_eq_of_length_le (Nat.le_of_not_lt hk)]

/-- Nothing is lost: with what is taken out the others are all there. -/
theorem cons_set_perm (h : (front ++ [last])[k]? = some x) :
    (x :: front.set k last).Perm (front ++ [last]) := by
  by_cases hk : k < front.length
  · rw [List.getElem?_append_left hk, List.getElem?_eq_getElem hk] at h
    cases h
    calc
      (front[k] :: front.set k last).Perm (front[k] :: last :: front.eraseIdx k) :=
        (List.set_perm_cons_eraseIdx hk last).cons _
      List.Perm _ (last :: front[k] :: front.eraseIdx k) := .swap last _ _
      List.Perm _ (last :: front) := (List.getElem_cons_eraseIdx_perm hk).cons last
      List.Perm _ (front ++ [last]) := (List.perm_append_singleton last front).symm
  · -- the last is taken out itself
    have hle : front.length ≤ k := Nat.le_of_not_lt hk
    rw [List.getElem?_append_right hle] at h
    rw [List.mem_singleton.mp (List.mem_of_getElem? h), List.set_eq_of_length_le hle]
    exact (List.perm_append_singleton last front).symm

/-- Closing the gap leaves the others in their order if there is at most one behind the gap. -/
theorem set_eq_eraseIdx_iff (hnodup : (front ++ [last]).Nodup) (hk : k ≤ front.length) :
    front.set k last = (front ++ [last]).eraseIdx k ↔ front.length ≤ k + 1 := by
  constructor
  · intro heq
    by_contra hlt
    have hnext : k + 1 < front.length := by omega
    -- the last would have to be the one that stands behind the gap
    have hplace : (front.set k last)[k]? = ((front ++ [last]).eraseIdx k)[k]? := by rw [heq]
    rw [List.getElem?_set_self (by omega), List.getElem?_eraseIdx_of_ge (Nat.le_refl k),
      List.getElem?_append_left hnext] at hplace
    have hmem : last ∈ front := List.mem_of_getElem? hplace.symm
    exact (List.nodup_append.mp hnodup).2.2 last hmem last (List.mem_singleton.mpr rfl) rfl
  · intro hle
    refine List.ext_getElem? fun j => ?_
    rw [List.getElem?_set, List.getElem?_eraseIdx]
    grind

end Gap

/-! ## One use -/

theorem get?_eq_none_iff {name : String} : b.get? name = none ↔ name ∉ b.names :=
  lookup_eq_none_iff_not_mem

/-- All that taking a name can do. The entry of the name is the only one, so it is the one that is found. -/
theorem use_take_cases (h : b.names.Nodup) (name : String) :
    (name ∉ b.names ∧ b.use (.take name) = (.error (.unboundName name), b)) ∨
      ∃ front last k x, b.entries = front ++ [last] ∧ b.entries[k]? = some (name, x) ∧
        b.get? name = some x ∧
        b.use (.take name) = (.ok x, { b with entries := front.set k last }) := by
  rw [use]
  unfold take
  cases hfind : b.entries.findFinIdx? (·.1 == name) with
  | none =>
    refine .inl ⟨?_, rfl⟩
    intro hname
    obtain ⟨entry, hentry, rfl⟩ := List.mem_map.mp hname
    exact List.findFinIdx?_eq_none_iff.mp hfind entry hentry (beq_self_eq_true _)
  | some k =>
    obtain ⟨hname, -⟩ := List.findFinIdx?_eq_some_iff.mp hfind
    -- the entry that is found is one of a list that is not empty, so there is a last one
    have hne : b.entries ≠ [] := List.ne_nil_of_length_pos (Nat.zero_lt_of_lt k.isLt)
    obtain ⟨front, last, hentries⟩ := (List.eq_nil_or_concat' b.entries).resolve_left hne
    have hk : b.entries[k.val]? = some (name, (b.entries.get k).2) := by
      rw [List.getElem?_eq_getElem k.isLt, ← beq_iff_eq.mp hname]
      rfl
    have hget : b.get? name = some (b.entries.get k).2 :=
      (lookup_eq_some_iff_mem h).mpr (List.mem_of_getElem? hk)
    refine .inr ⟨front, last, k.val, _, hentries, hk, hget, ?_⟩
    rw [← removeAt_concat, ← hentries]

/-- Taking a name gives what reading it gives. -/
theorem answer_take (h : b.names.Nodup) (name : String) :
    (b.use (.take name)).1 = b.value name := by
  unfold value
  rcases use_take_cases h name with ⟨hunbound, huse⟩ | ⟨front, last, k, x, -, -, hget, huse⟩
  · rw [huse, get?_eq_none_iff.mpr hunbound]
  · rw [huse, hget]

/-- The name is bound to `x`. To look it up, to read it as any value and to take it all give `x`. To read it as
one kind of value gives what `x` holds, if `x` is of this kind, and otherwise reports the type of `x`. -/
structure BoundTo (b : Bindings) (name : String) (x : Value) : Prop where
  get : (b.use (.get name)).1 = some x
  value : (b.use (.value name)).1 = .ok x
  take : (b.use (.take name)).1 = .ok x
  read : ∀ (g : Getter) (y : g.Result), (b.use (.read g name)).1 = .ok y ↔ x = g.toValue y
  misread : ∀ g : Getter, (∀ y, x ≠ g.toValue y) →
    (b.use (.read g name)).1 = .error (.bindingType name g.word x.type)

/-- What a look-up finds settles what comes of all other uses. -/
theorem boundTo_of_get? (hb : b.names.Nodup) {name : String} {x : Value} (h : b.get? name = some x) :
    b.BoundTo name x := by
  have hvalue : b.value name = .ok x := by
    unfold value
    rw [h]
  have hread : ∀ g : Getter, (b.use (.read g name)).1
      = (g.ofValue x).elim (.error (.bindingType name g.word x.type)) .ok := Getter.read_of_get? h
  refine ⟨h, hvalue, (answer_take hb name).trans hvalue, ?_, ?_⟩
  · intro g y
    rw [hread, ← Getter.ofValue_eq_some_iff]
    cases g.ofValue x <;> simp
  · intro g hother
    have hnone : g.ofValue x = none := by
      rw [Option.eq_none_iff_forall_ne_some]
      exact fun y hy => hother y (Getter.ofValue_eq_some_iff.mp hy)
    rw [hread, hnone]
    rfl

/-- Nothing comes of the use of a name that is not bound. -/
theorem answer_of_not_mem (hb : b.names.Nodup) {u : Use} (h : u.name ∉ b.names) :
    (b.use u).1 = u.unbound := by
  -- nothing is found, and all other uses go by what is found
  have hget : b.get? u.name = none := get?_eq_none_iff.mpr h
  have hvalue : b.value u.name = .error (.unboundName u.name) := by
    unfold value
    rw [hget]
  cases u with
  | get name => exact hget
  | value name => exact hvalue
  | read getter name => exact Getter.read_of_get?_eq_none hget getter
  | take name => exact (answer_take hb name).trans hvalue

theorem filter_filter_not_mem {α : Type} {f : α → String} {xs : List α} {gone more : List String} :
    (xs.filter (f · ∉ gone)).filter (f · ∉ more) = xs.filter (f · ∉ gone ++ more) := by
  rw [List.filter_filter]
  refine List.filter_congr fun x _ => ?_
  simp [Bool.and_comm]

theorem filter_eq_self_of_not_mem {α : Type} {f : α → String} {xs : List α} {name : String}
    (h : name ∉ xs.map f) : xs.filter (f · ∉ [name]) = xs := by
  rw [List.filter_eq_self]
  intro x hx
  simpa using fun hname => h (List.mem_map.mpr ⟨x, hx, hname⟩)

/-- One use leaves all entries but the one whose name is taken. -/
theorem entries_use_perm (hb : b.names.Nodup) (u : Use) :
    (b.use u).2.entries.Perm (b.entries.filter (·.1 ∉ u.taken?.toList)) := by
  cases u with
  | get name => simp [use, Use.taken?]
  | value name => simp [use, Use.taken?]
  | read getter name => simp [use, Use.taken?]
  | take name =>
    show List.Perm _ (b.entries.filter (·.1 ∉ [name]))
    rcases use_take_cases hb name with ⟨hunbound, huse⟩ | ⟨front, last, k, x, hentries, hk, -, huse⟩
    · rw [huse, filter_eq_self_of_not_mem hunbound]
    · rw [huse]
      have hperm : ((name, x) :: front.set k last).Perm b.entries := by
        rw [hentries] at hk ⊢
        exact cons_set_perm hk
      -- the names of all entries are distinct, so none of the others has the name that is taken
      have hnames : (((name, x) :: front.set k last).map (·.1)).Nodup :=
        (hperm.map _).nodup_iff.mpr hb
      have hgone : name ∉ (front.set k last).map (·.1) := (List.nodup_cons.mp hnames).1
      have hfilter := hperm.filter (·.1 ∉ [name])
      rw [List.filter_cons_of_neg (by simp), filter_eq_self_of_not_mem hgone] at hfilter
      exact hfilter

theorem size_use_take (hb : b.names.Nodup) {name : String} {x : Value}
    (h : (b.use (.take name)).1 = .ok x) : (b.use (.take name)).2.size + 1 = b.size := by
  rcases use_take_cases hb name with ⟨-, huse⟩ | ⟨front, last, k, x', hentries, -, -, huse⟩
  · rw [huse] at h
    cases h
  · rw [huse]
    unfold size
    rw [hentries, List.length_append, List.length_set, List.length_singleton]

/-- A name that cannot be taken changes nothing. -/
theorem use_take_of_error (hb : b.names.Nodup) {name : String} {e : MatchError}
    (h : (b.use (.take name)).1 = .error e) : (b.use (.take name)).2 = b := by
  rcases use_take_cases hb name with ⟨-, huse⟩ | ⟨_, _, _, _, -, -, -, huse⟩
  · rw [huse]
  · rw [huse] at h
    cases h

/-- Other uses change nothing. -/
theorem use_of_taken?_eq_none {u : Use} (h : u.taken? = none) : (b.use u).2 = b := by
  cases u with
  | get name => rfl
  | value name => rfl
  | read getter name => rfl
  | take name => cases h

/-! ## A row of uses -/

/-- `rest` is what is left of `b` when the names `gone` are taken: the other entries, each as it was. Their
order may be another. -/
structure LeftOf (b : Bindings) (gone : List String) (rest : Bindings) : Prop where
  variant : rest.variant = b.variant
  entries : rest.entries.Perm (b.entries.filter (·.1 ∉ gone))

theorem leftOf_self (b : Bindings) : b.LeftOf [] b where
  variant := rfl
  entries := by simp

theorem LeftOf.names_perm (h : b.LeftOf gone rest) :
    rest.names.Perm (b.names.filter (· ∉ gone)) := by
  have hmap := h.entries.map (·.1)
  rw [filter_map_fst (fun name => decide (name ∉ gone))] at hmap
  exact hmap

/-- What is left of distinct names are distinct names. -/
theorem LeftOf.nodup (h : b.LeftOf gone rest) (hb : b.names.Nodup) : rest.names.Nodup :=
  h.names_perm.nodup_iff.mpr (hb.filter _)

/-- The names that are left are those that were bound and not taken. -/
theorem LeftOf.mem_names_iff (h : b.LeftOf gone rest) {name : String} :
    name ∈ rest.names ↔ name ∈ b.names ∧ name ∉ gone := by
  rw [h.names_perm.mem_iff, List.mem_filter, decide_eq_true_iff]

/-- What is left is bound to what it was bound to. -/
theorem LeftOf.get?_eq (h : b.LeftOf gone rest) (hb : b.names.Nodup) {name : String}
    (hname : name ∉ gone) : rest.get? name = b.get? name := by
  rw [Option.ext_iff]
  intro x
  unfold get?
  rw [lookup_eq_some_iff_mem hb, lookup_eq_some_iff_mem (h.nodup hb), h.entries.mem_iff,
    List.mem_filter]
  simp [hname]

/-- The step: one more use leaves what it does not take. -/
theorem LeftOf.use (h : b.LeftOf gone rest) (hb : b.names.Nodup) (u : Use) :
    b.LeftOf (gone ++ u.taken?.toList) (rest.use u).2 where
  variant := by
    rw [← h.variant]
    cases u with
    | get name => rfl
    | value name => rfl
    | read getter name => rfl
    | take name =>
      rcases use_take_cases (h.nodup hb) name with ⟨-, huse⟩ | ⟨_, _, _, _, -, -, -, huse⟩
      · rw [huse]
      · rw [huse]
  entries := by
    have hfilter := h.entries.filter (·.1 ∉ u.taken?.toList)
    rw [filter_filter_not_mem] at hfilter
    exact (entries_use_perm (h.nodup hb) u).trans hfilter

/-- Induction on the last use. -/
theorem leftOf_after (hb : b.names.Nodup) (uses : List Use) :
    b.LeftOf (taken uses) (b.after uses) := by
  induction uses using List.reverseRecOn with
  | nil => exact leftOf_self b
  | append_singleton earlier u ih =>
    rw [after_concat, taken_concat]
    exact ih.use hb u

/-- A name that was taken, or never bound, is not bound after whatever was done. -/
theorem answer_after_of_gone (hb : b.names.Nodup) (uses : List Use) {u : Use}
    (h : u.name ∈ taken uses ∨ u.name ∉ b.names) : ((b.after uses).use u).1 = u.unbound := by
  have hleft := leftOf_after hb uses
  refine answer_of_not_mem (hleft.nodup hb) fun hmem => ?_
  obtain ⟨hbound, hkept⟩ := hleft.mem_names_iff.mp hmem
  exact h.elim hkept (fun hunbound => hunbound hbound)

/-- A name that was not taken is bound to what it was bound to at first, whatever was done. -/
theorem boundTo_after (hb : b.names.Nodup) (uses : List Use) {entry : String × Value}
    (hentry : entry ∈ b.entries) (hkept : entry.1 ∉ taken uses) :
    (b.after uses).BoundTo entry.1 entry.2 := by
  have hleft := leftOf_after hb uses
  refine boundTo_of_get? (hleft.nodup hb) ?_
  rw [hleft.get?_eq hb hkept]
  exact (lookup_eq_some_iff_mem hb).mpr hentry

/-- Which of the names are taken settles what is left, and the order of taking does not. -/
theorem entries_after_perm (hb : b.names.Nodup) {uses uses' : List Use}
    (h : ∀ name ∈ b.names, name ∈ taken uses ↔ name ∈ taken uses') :
    (b.after uses).entries.Perm (b.after uses').entries := by
  refine (leftOf_after hb uses).entries.trans (.trans (.of_eq ?_) (leftOf_after hb uses').entries.symm)
  -- what is left is settled by the names that were taken
  refine List.filter_congr fun entry hentry => ?_
  rw [decide_eq_decide, not_iff_not]
  exact h _ (List.mem_map_of_mem hentry)

/-! ## The order of names -/

/-- After the uses the names that are left are listed in the order they had at first. -/
def InOrder (b : Bindings) (uses : List Use) : Prop :=
  (b.after uses).names = b.names.filter (· ∉ taken uses)

/-- The use takes no name that has two others behind it. -/
def Use.FromEnd (u : Use) (b : Bindings) : Prop :=
  ∀ name (k : Nat), u = .take name → b.names[k]? = some name → b.size ≤ k + 2

/-- Whenever a name is taken, it is the last or the last but one of those that are left. -/
def TakesFromEnd (b : Bindings) (uses : List Use) : Prop :=
  ∀ earlier u, earlier ++ [u] <+: uses → u.FromEnd (b.after earlier)

/-- The last name takes the place of the one that is taken, and no other is moved. -/
theorem exists_names_use_take (hb : b.names.Nodup) {k : Nat} {name : String}
    (hk : b.names[k]? = some name) :
    ∃ front last, b.names = front ++ [last] ∧ (b.use (.take name)).2.names = front.set k last := by
  rcases use_take_cases hb name with ⟨hunbound, -⟩ | ⟨front, last, j, x, hentries, hj, -, huse⟩
  · exact absurd (List.mem_of_getElem? hk) hunbound
  · have hjname : b.names[j]? = some name := by
      unfold names
      rw [List.getElem?_map, hj]
      rfl
    obtain ⟨hlt, -⟩ := List.getElem?_eq_some_iff.mp hjname
    -- the place that is found is the one that was given, as names are distinct
    obtain rfl : j = k := (List.getElem?_inj hlt hb).mp (hjname.trans hk.symm)
    refine ⟨front.map (·.1), last.1, ?_, ?_⟩
    · unfold names
      rw [hentries, List.map_append, List.map_singleton]
    · rw [huse]
      exact List.map_set

/-- Among distinct names, to leave out one is to erase its place. -/
theorem filter_ne_eq_eraseIdx {names : List String} (hnodup : names.Nodup) {k : Nat} {name : String}
    (hk : names[k]? = some name) : names.filter (· ∉ [name]) = names.eraseIdx k := by
  obtain ⟨hlt, rfl⟩ := List.getElem?_eq_some_iff.mp hk
  rw [← hnodup.erase_getElem k hlt, hnodup.erase_eq_filter]
  refine List.filter_congr fun x _ => ?_
  rw [Bool.eq_iff_iff]
  simp

/-- A use leaves the names that it does not take in their order exactly if it takes none with two behind
it. -/
theorem names_use_eq_iff (hb : b.names.Nodup) (u : Use) :
    (b.use u).2.names = b.names.filter (· ∉ u.taken?.toList) ↔ u.FromEnd b := by
  cases u with
  | get name => simp [use, Use.taken?, Use.FromEnd]
  | value name => simp [use, Use.taken?, Use.FromEnd]
  | read getter name => simp [use, Use.taken?, Use.FromEnd]
  | take name =>
    have hend : Use.FromEnd (.take name) b ↔
        ∀ k : Nat, b.names[k]? = some name → b.size ≤ k + 2 := by
      refine ⟨fun h k => h name k rfl, ?_⟩
      rintro h _ k ⟨⟩
      exact h k
    rw [hend]
    show _ = b.names.filter (· ∉ [name]) ↔ _
    by_cases hname : name ∈ b.names
    · obtain ⟨k, hk⟩ := List.mem_iff_getElem?.mp hname
      obtain ⟨front, last, hnames, hafter⟩ := exists_names_use_take hb hk
      have hlt : k < b.names.length := (List.getElem?_eq_some_iff.mp hk).1
      have hlen : b.names.length = front.length + 1 := by
        rw [hnames, List.length_append, List.length_singleton]
      have hsize : b.names.length = b.size := List.length_map _
      -- the name stands at one place only, so the question is about this place
      have hplace : ∀ j : Nat, b.names[j]? = some name ↔ j = k := fun j =>
        ⟨fun hj => ((List.getElem?_inj hlt hb).mp (hk.trans hj.symm)).symm, fun hj => hj ▸ hk⟩
      have horder : front.set k last = b.names.eraseIdx k ↔ front.length ≤ k + 1 := by
        rw [hnames] at hb ⊢
        exact set_eq_eraseIdx_iff hb (by omega)
      simp only [hplace, forall_eq]
      rw [filter_ne_eq_eraseIdx hb hk, hafter, horder]
      omega
    · -- nothing is taken
      have hall : b.names.filter (· ∉ [name]) = b.names :=
        filter_eq_self_of_not_mem (f := id) (by simpa using hname)
      have huse : (b.use (.take name)).2 = b := by
        rcases use_take_cases hb name with ⟨-, huse⟩ | ⟨_, _, _, _, -, hj, -, -⟩
        · rw [huse]
        · exact absurd (List.mem_map_of_mem (List.mem_of_getElem? hj)) hname
      rw [huse, hall]
      exact iff_of_true rfl fun k hk => absurd (List.mem_of_getElem? hk) hname

theorem inOrder_nil (b : Bindings) : b.InOrder [] := by
  simp [InOrder, after, taken]

/-- If the names are in order before a use, they are so after it if it takes from the end. -/
theorem InOrder.concat_iff (hb : b.names.Nodup) (h : b.InOrder uses) (u : Use) :
    b.InOrder (uses ++ [u]) ↔ u.FromEnd (b.after uses) := by
  have hleft : b.names.filter (· ∉ taken (uses ++ [u]))
      = (b.after uses).names.filter (· ∉ u.taken?.toList) := by
    rw [show (b.after uses).names = _ from h, taken_concat]
    exact (filter_filter_not_mem (f := id)).symm
  unfold InOrder
  rw [hleft, after_concat, names_use_eq_iff ((leftOf_after hb uses).nodup hb)]

/-- A row of uses takes from the end if each of them does. -/
theorem takesFromEnd_concat_iff {u : Use} :
    b.TakesFromEnd (uses ++ [u]) ↔ b.TakesFromEnd uses ∧ u.FromEnd (b.after uses) := by
  unfold TakesFromEnd
  simp only [List.prefix_concat_iff]
  constructor
  · intro h
    exact ⟨fun earlier u' hu' => h earlier u' (.inr hu'), h uses u (.inl rfl)⟩
  · rintro ⟨hearlier, hu⟩ earlier u' (heq | hu')
    · obtain ⟨rfl, hsame⟩ := List.append_inj' heq rfl
      cases hsame
      exact hu
    · exact hearlier earlier u' hu'

/-- Induction on the last use. The names are in order before it, and the step is `InOrder.concat_iff`. -/
theorem inOrder_iff_takesFromEnd (hb : b.names.Nodup) (uses : List Use) :
    (∀ earlier, earlier <+: uses → b.InOrder earlier) ↔ b.TakesFromEnd uses := by
  induction uses using List.reverseRecOn with
  | nil => simp [TakesFromEnd, inOrder_nil]
  | append_singleton uses u ih =>
    rw [takesFromEnd_concat_iff, ← ih]
    constructor
    · intro h
      have hearlier : ∀ earlier, earlier <+: uses → b.InOrder earlier :=
        fun earlier hprefix => h earlier (List.prefix_concat_iff.mpr (.inr hprefix))
      refine ⟨hearlier, ?_⟩
      rw [← (hearlier uses List.prefix_rfl).concat_iff hb]
      exact h _ List.prefix_rfl
    · rintro ⟨hearlier, hu⟩ earlier hprefix
      rcases List.prefix_concat_iff.mp hprefix with rfl | hprefix
      · exact ((hearlier uses List.prefix_rfl).concat_iff hb u).mpr hu
      · exact hearlier earlier hprefix

end Bindings

/-! ## The bindings of a body -/

/-- No binder introduces the placeholder. -/
theorem Binder.placeholder_not_mem_names (b : Binder) : placeholder ∉ b.names := by
  cases b with
  | ignore => exact List.not_mem_nil
  | whole name => simp [Binder.names]
  | positional listed => simp [Binder.names]
  | named pairs => simp [Binder.names]

/-- A body gets the names of its arm, each once and in their order. -/
theorem Plan.Fires.names_eq {R : Type} {r : Registry} (hr : r.Consistent) {v : EnumValue}
    (hv : v.WellFormed r) {arms : List (Arm R)} {p : Plan}
    (hp : compile v.type (arms.map (·.head)) = .ok p) {i : Nat} {arm : Arm R} {b : Bindings}
    (h : p.Fires arms v i arm b) : b.names = arm.head.binder.names ∧ b.names.Nodup := by
  obtain ⟨entries, rfl, hbinds⟩ := h.exists_binds hr hv hp
  obtain ⟨hfits, hshape⟩ := fits_of_armFor? (hr.wellFormed _ hv.registered) hp h.arm_eq h.entry
  exact Binder.map_fst_of_binds hv hshape hfits hbinds

namespace World

variable {R : Type} {w : World} {v : EnumValue} {arms : List (Arm R)} {p : Plan} {i : Nat}
  {arm : Arm R} {b : Bindings}

/-! ## A color -/

/-- The type of colors. -/
def color : EnumType where
  id := ⟨0⟩
  name := "Color"
  variants := [⟨"Rgb", .positional [.scalar .byte, .scalar .byte, .scalar .byte]⟩]
  index := ⟨[("Rgb", 0)]⟩

def crimson : EnumValue :=
  ⟨color, ⟨0, by decide⟩, [.byte 220, .byte 20, .byte 60]⟩

/-- A world with one color. -/
def colors : World where
  session := { registry := { byName := ⟨[("Color", color)]⟩, nextId := 1 } }
  held := [crimson]

theorem reachable_colors : Reachable colors := by
  have hdeclares : Registry.Declares {} color.variants := by
    intro variant hvariant type htype
    obtain rfl := List.mem_singleton.mp hvariant
    simp only [Shape.fieldTypes, List.mem_cons, List.not_mem_nil, or_false, or_self] at htype
    subst htype
    trivial
  have hregister : Session.register {} "Color" color.variants
      = (.ok color, colors.session) := rfl
  have hcrimson : construct color "Rgb" (.positional [.byte 220, .byte 20, .byte 60])
      = .ok crimson := rfl
  refine .trans (.session (.register hdeclares hregister)) ?_
  refine .construct (List.mem_singleton.mpr rfl) ?_ hcrimson
  intro x hx u hu
  simp only [Payload.values, List.mem_cons, List.not_mem_nil, or_false] at hx
  rcases hx with rfl | rfl | rfl <;> cases hu

/-- The arm that names the three parts of a color. -/
def onRgb : Arm Bindings :=
  .on "Rgb" (.positional ["red", "green", "blue"]) id

/-- The plan for that arm. -/
def planRgb : Plan :=
  ⟨color, [0], [.fields [("red", 0), ("green", 1), ("blue", 2)]]⟩

/-- What that arm gets for crimson. -/
def boundRgb : Bindings :=
  ⟨"Rgb", [("red", .byte 220), ("green", .byte 20), ("blue", .byte 60)]⟩

theorem compile_onRgb : Plan.compile crimson.type ([onRgb].map (·.head)) = .ok planRgb :=
  rfl

theorem fires_onRgb : planRgb.Fires [onRgb] crimson 0 onRgb boundRgb where
  entry := rfl
  arm_eq := rfl
  bind_eq := rfl

/-! ## What a body receives -/

/-- Taking bindings loses and corrupts nothing. Take any instance that clients can hold, any accepted list of
arms for its type, and the arm that fires. The matcher runs the body on what the arm's binder asks for. Let the
body use its bindings in any way. What is left are the entries whose names were not taken, each name once and
the placeholder never. A name that was not taken is bound to its original value, for every kind of use
(`Bindings.BoundTo`). One that was taken is unbound for every kind of use. To take a name leaves one entry less
if it succeeds, and changes nothing if it fails; other uses change nothing. So the names that are taken, in
whatever order, settle which names remain and what they hold. -/
theorem Reachable.taking_loses_nothing (hw : w.Reachable) (hv : v ∈ w.held)
    (hp : Plan.compile v.type (arms.map (·.head)) = .ok p) (h : p.Fires arms v i arm b) :
    (∀ m : Matcher, m = w.session.matcher ∨ m.Reachable w.session.registry →
      (m.evaluate v arms).1 = .ok (arm.body b)) ∧
    arm.head.binder.Binds v b.entries ∧
    ∀ uses : List Bindings.Use,
      b.LeftOf (Bindings.taken uses) (b.after uses) ∧
      (b.after uses).names.Nodup ∧ placeholder ∉ (b.after uses).names ∧
      (∀ entry ∈ b.entries, entry.1 ∉ Bindings.taken uses →
        (b.after uses).BoundTo entry.1 entry.2) ∧
      (∀ u : Bindings.Use, u.name ∈ Bindings.taken uses ∨ u.name ∉ b.names →
        ((b.after uses).use u).1 = u.unbound) ∧
      (∀ name x, ((b.after uses).use (.take name)).1 = .ok x →
        ((b.after uses).use (.take name)).2.size + 1 = (b.after uses).size) ∧
      (∀ name e, ((b.after uses).use (.take name)).1 = .error e →
        ((b.after uses).use (.take name)).2 = b.after uses) ∧
      (∀ u : Bindings.Use, u.taken? = none → ((b.after uses).use u).2 = b.after uses) ∧
      ∀ uses' : List Bindings.Use,
        (∀ name ∈ b.names, name ∈ Bindings.taken uses ↔ name ∈ Bindings.taken uses') →
          (b.after uses).entries.Perm (b.after uses').entries := by
  have hcon := hw.sound.registry.consistent
  have hwf : v.WellFormed w.session.registry := hw.sound.held v hv
  obtain ⟨hnames, hb⟩ := h.names_eq hcon hwf hp
  refine ⟨fun m hm => hw.evaluate_of_fires hv hm hp h, ?_, ?_⟩
  · obtain ⟨entries, rfl, hbinds⟩ := h.exists_binds hcon hwf hp
    exact hbinds
  · intro uses
    have hleft := Bindings.leftOf_after hb uses
    have hnodup := hleft.nodup hb
    refine ⟨hleft, hnodup, ?_, ?_, ?_, ?_, ?_, ?_, ?_⟩
    · intro hplaceholder
      have hmem := (hleft.mem_names_iff.mp hplaceholder).1
      rw [hnames] at hmem
      exact arm.head.binder.placeholder_not_mem_names hmem
    · intro entry hentry hkept
      exact Bindings.boundTo_after hb uses hentry hkept
    · intro u hgone
      exact Bindings.answer_after_of_gone hb uses hgone
    · intro name x hx
      exact Bindings.size_use_take hnodup hx
    · intro name e he
      exact Bindings.use_take_of_error hnodup he
    · intro u hu
      exact Bindings.use_of_taken?_eq_none hu
    · intro uses' hsame
      exact Bindings.entries_after_perm hb hsame

/-- What the arm for crimson gets, and what becomes of it as the body takes it apart. A name that was taken is
not bound any more, and the others are what they were: green reads as the byte that it is, and not as a text. -/
theorem Reachable.taking_loses_nothing_colors :
    ∃ p b, colors.Reachable ∧ Plan.compile crimson.type ([onRgb].map (·.head)) = .ok p ∧
      p.Fires [onRgb] crimson 0 onRgb b ∧
      (b.use (.take "red")).1 = .ok (.byte 220) ∧
      ((b.after [.take "red"]).use (.take "red")).1 = .error (.unboundName "red") ∧
      ((b.after [.take "red"]).use (.read .byte "red")).1 = .error (.unboundName "red") ∧
      ((b.after [.take "red", .value "green"]).use (.get "green")).1 = some (.byte 20) ∧
      ((b.after [.take "red"]).use (.read .byte "green")).1 = .ok (20 : UInt8) ∧
      ((b.after [.take "red"]).use (.read .text "green")).1
        = .error (.bindingType "green" "text" (.scalar .byte)) ∧
      (b.after [.take "red", .take "blue"]).entries = [("green", .byte 20)] := by
  have hheld : crimson ∈ colors.held := List.mem_singleton.mpr rfl
  obtain ⟨-, -, hrow⟩ := reachable_colors.taking_loses_nothing hheld compile_onRgb fires_onRgb
  obtain ⟨-, -, -, hbound, -⟩ := hrow []
  obtain ⟨-, -, -, hkept, hgone, -⟩ := hrow [.take "red"]
  obtain ⟨-, -, -, hread, -⟩ := hrow [.take "red", .value "green"]
  obtain ⟨hleft, -⟩ := hrow [.take "red", .take "blue"]
  have hred : ("red", Value.byte 220) ∈ boundRgb.entries := by simp [boundRgb]
  have hgreen : ("green", Value.byte 20) ∈ boundRgb.entries := by simp [boundRgb]
  have hstays : (boundRgb.after [.take "red"]).BoundTo "green" (.byte 20) :=
    hkept _ hgreen (by decide)
  have htaken : "red" ∈ Bindings.taken [.take "red"] := by decide
  refine ⟨planRgb, boundRgb, reachable_colors, compile_onRgb, fires_onRgb,
    (hbound _ hred (by decide)).take, hgone (.take "red") (.inl htaken),
    hgone (.read .byte "red") (.inl htaken), (hread _ hgreen (by decide)).get,
    (hstays.read .byte _).mpr rfl, hstays.misread .text ?_, ?_⟩
  · intro y hy
    cases hy
  · exact List.perm_singleton.mp hleft.entries

/-! ## The names a body sees -/

/-- The names that a body sees as it takes its bindings. Take any instance that clients can hold, any accepted
list of arms for its type, and the arm that fires. At first the names are those of the binder, in the order of
the binder. After any uses they are the names of the binder that were not taken, each once. Their order is
another thing: a name that is taken gives its place to the last, and no other is moved. So the names stay in the
order of the binder, all the way, exactly if each name that is taken is the last or the last but one of those
that are left. -/
theorem Reachable.names_after_takes (hw : w.Reachable) (hv : v ∈ w.held)
    (hp : Plan.compile v.type (arms.map (·.head)) = .ok p) (h : p.Fires arms v i arm b) :
    (∀ m : Matcher, m = w.session.matcher ∨ m.Reachable w.session.registry →
      (m.evaluate v arms).1 = .ok (arm.body b)) ∧
    b.names = arm.head.binder.names ∧
    ∀ uses : List Bindings.Use,
      (b.after uses).names.Nodup ∧
      (b.after uses).names.Perm
        (arm.head.binder.names.filter (· ∉ Bindings.taken uses)) ∧
      (∀ (k : Nat) name, (b.after uses).names[k]? = some name →
        ∃ front last, (b.after uses).names = front ++ [last] ∧
          (b.after (uses ++ [.take name])).names = front.set k last) ∧
      ((∀ earlier, earlier <+: uses → (b.after earlier).names
          = arm.head.binder.names.filter (· ∉ Bindings.taken earlier)) ↔
        b.TakesFromEnd uses) := by
  obtain ⟨hnames, hb⟩ := h.names_eq hw.sound.registry.consistent (hw.sound.held v hv) hp
  refine ⟨fun m hm => hw.evaluate_of_fires hv hm hp h, hnames, fun uses => ?_⟩
  have hleft := Bindings.leftOf_after hb uses
  rw [← hnames]
  refine ⟨hleft.nodup hb, hleft.names_perm, ?_, Bindings.inOrder_iff_takesFromEnd hb uses⟩
  intro k name hk
  rw [Bindings.after_concat]
  exact Bindings.exists_names_use_take (hleft.nodup hb) hk

/-- Crimson taken apart from the end: blue first, then red, which is the last but one by then. -/
theorem Reachable.names_after_takes_colors :
    ∃ p b, colors.Reachable ∧ Plan.compile crimson.type ([onRgb].map (·.head)) = .ok p ∧
      p.Fires [onRgb] crimson 0 onRgb b ∧ b.names = ["red", "green", "blue"] ∧
      (b.after [.take "blue"]).names = ["red", "green"] ∧
      (b.after [.take "blue", .take "red"]).names = ["green"] ∧
      b.TakesFromEnd [.take "blue", .take "red"] := by
  have hheld : crimson ∈ colors.held := List.mem_singleton.mpr rfl
  obtain ⟨-, hnames, hrow⟩ := reachable_colors.names_after_takes hheld compile_onRgb fires_onRgb
  obtain ⟨-, -, -, horder⟩ := hrow [.take "blue", .take "red"]
  refine ⟨planRgb, boundRgb, reachable_colors, compile_onRgb, fires_onRgb, hnames, rfl, rfl,
    horder.mp ?_⟩
  intro earlier hprefix
  simp only [List.prefix_cons_iff, List.prefix_nil] at hprefix
  rcases hprefix with rfl | ⟨_, rfl, rfl | ⟨_, rfl, rfl⟩⟩
  · rfl
  · rfl
  · rfl

/-- If red is taken first, blue comes before green, and the binder lists green before blue. -/
theorem names_out_of_order :
    ∃ p b, colors.Reachable ∧ crimson ∈ colors.held ∧
      Plan.compile crimson.type ([onRgb].map (·.head)) = .ok p ∧
      p.Fires [onRgb] crimson 0 onRgb b ∧
      (b.after [.take "red"]).names = ["blue", "green"] ∧
      onRgb.head.binder.names.filter (· ∉ Bindings.taken [.take "red"]) = ["green", "blue"] ∧
      (b.after [.take "red"]).names
        ≠ onRgb.head.binder.names.filter (· ∉ Bindings.taken [.take "red"]) :=
  ⟨planRgb, boundRgb, reachable_colors, List.mem_singleton.mpr rfl, compile_onRgb, fires_onRgb,
    rfl, rfl, by decide⟩

end World

end TaggedUnion
