/-!
# Dictionaries

A dictionary holds values under keys, at most one under each. Keys are told apart by `==`. Entering a
key that is there already gives it another value, and any other key goes to the end.

* `Dict.get?`, `Dict.contains`, `Dict.insert`: the operations.
* `Dict.get?_eq_some_iff_of_unique`: what is found, whatever else is in the dictionary.
* `Dict.get?_insert`, `Dict.contains_insert`: what is found after a key was entered.
* `Dict.entries_insert`: entering a new key moves no other entry.
* `lookup_eq_some_iff_mem`: where keys are distinct, looking one up is finding its entry.
-/

namespace TaggedUnion

theorem lookup_eq_none_iff_not_mem {κ α : Type} [BEq κ] [LawfulBEq κ] {entries : List (κ × α)}
    {key : κ} : entries.lookup key = none ↔ key ∉ entries.map (·.1) := by
  rw [List.lookup_eq_none_iff]
  constructor
  · intro h hmem
    obtain ⟨entry, hentry, rfl⟩ := List.mem_map.mp hmem
    simpa using h entry hentry
  · intro h entry hentry
    rw [bne_iff_ne]
    rintro rfl
    exact h (List.mem_map_of_mem hentry)

/-- Values under keys. -/
structure Dict (κ α : Type) where
  entries : List (κ × α) := []

namespace Dict

variable {κ α : Type}

/-- How many keys there are. -/
def size (d : Dict κ α) : Nat :=
  d.entries.length

def keys (d : Dict κ α) : List κ :=
  d.entries.map (·.1)

def values (d : Dict κ α) : List α :=
  d.entries.map (·.2)

variable [BEq κ]

/-- The value under a key. -/
def get? (d : Dict κ α) (key : κ) : Option α :=
  d.entries.lookup key

def contains (d : Dict κ α) (key : κ) : Bool :=
  (d.get? key).isSome

/-- Enters a value under a key, in place of the value that is there. -/
def insert (d : Dict κ α) (key : κ) (x : α) : Dict κ α :=
  if d.contains key then
    ⟨d.entries.map fun entry => if key == entry.1 then (entry.1, x) else entry⟩
  else
    ⟨d.entries ++ [(key, x)]⟩

variable {d : Dict κ α} {key key' : κ} {x : α}

theorem contains_eq_false_iff : d.contains key = false ↔ d.get? key = none := by
  unfold contains
  rw [Option.isSome_eq_false_iff, Option.isNone_iff_eq_none]

theorem contains_iff : d.contains key = true ↔ ∃ x, d.get? key = some x :=
  Option.isSome_iff_exists

/-- A new key goes to the end, and the others stay where they are. -/
theorem entries_insert (h : d.get? key = none) :
    (d.insert key x).entries = d.entries ++ [(key, x)] := by
  unfold insert
  rw [contains_eq_false_iff.mpr h]
  rfl

theorem size_insert (h : d.get? key = none) : (d.insert key x).size = d.size + 1 := by
  unfold size
  rw [entries_insert h, List.length_append, List.length_singleton]

theorem values_insert (h : d.get? key = none) : (d.insert key x).values = d.values ++ [x] := by
  unfold values
  rw [entries_insert h, List.map_append, List.map_singleton]

/-- What is found stands under an equal key. -/
theorem exists_entry_of_get? (h : d.get? key = some x) :
    ∃ entry ∈ d.entries, (key == entry.1) = true ∧ entry.2 = x := by
  rw [get?, List.lookup_eq_findSome?] at h
  obtain ⟨entry, hentry, hfound⟩ := List.exists_of_findSome?_eq_some h
  refine ⟨entry, hentry, ?_⟩
  by_cases hkey : (key == entry.1) = true
  · rw [if_pos hkey] at hfound
    exact ⟨hkey, Option.some.inj hfound⟩
  · rw [if_neg hkey] at hfound
    cases hfound

/-- Where only one value stands under a key, a look-up finds it, whichever entry comes first. -/
theorem get?_eq_some_iff_of_unique
    (hunique : ∀ entry ∈ d.entries, ∀ entry' ∈ d.entries, (key == entry.1) = true →
      (key == entry'.1) = true → entry.2 = entry'.2) :
    d.get? key = some x ↔ ∃ entry ∈ d.entries, (key == entry.1) = true ∧ entry.2 = x := by
  refine ⟨exists_entry_of_get?, ?_⟩
  rintro ⟨entry, hentry, hkey, rfl⟩
  -- something is found, and it stands under the key as well
  have hsome : (d.get? key).isSome = true := List.lookup_isSome_iff.mpr ⟨entry, hentry, hkey⟩
  obtain ⟨y, hy⟩ := Option.isSome_iff_exists.mp hsome
  obtain ⟨entry', hentry', hkey', rfl⟩ := exists_entry_of_get? hy
  rw [hy, hunique entry hentry entry' hentry' hkey hkey']

/-- Where a value is replaced, the same keys are found as before. Induction on the entries. -/
theorem lookup_replace [EquivBEq κ] (entries : List (κ × α)) :
    (entries.map fun entry => if key == entry.1 then (entry.1, x) else entry).lookup key'
      = if key == key' then (entries.lookup key).map fun _ => x else entries.lookup key' := by
  induction entries with
  | nil => simp
  | cons entry rest ih =>
    obtain ⟨k, y⟩ := entry
    rw [List.map_cons]
    by_cases hkey : (key == k) = true
    · -- the value is replaced here, and this is the entry that is found under `key`
      have hsame : (key == key') = (key' == k) := by
        rw [BEq.comm, BEq.congr_right hkey]
      rw [if_pos hkey, List.lookup_cons, List.lookup_cons, List.lookup_cons, ih, hkey, hsame]
      cases key' == k <;> rfl
    · rw [if_neg hkey, List.lookup_cons, List.lookup_cons, List.lookup_cons, ih,
        Bool.eq_false_iff.mpr hkey]
      by_cases hkey' : (key == key') = true
      · have hother : (key' == k) = false := by
          rw [← BEq.congr_left hkey']
          exact Bool.eq_false_iff.mpr hkey
        simp [hkey', hother]
      · simp [hkey']

/-- After a key was entered it has the new value, and each other key what it had. -/
theorem get?_insert [EquivBEq κ] :
    (d.insert key x).get? key' = if key == key' then some x else d.get? key' := by
  cases hget : d.get? key with
  | none =>
    have hlookup : d.entries.lookup key = none := hget
    show (d.insert key x).entries.lookup key' = _
    rw [entries_insert hget, List.lookup_append, List.lookup_cons, List.lookup_nil]
    by_cases hkey : (key == key') = true
    · -- the key is new, so an equal one is not there either
      have hnone : d.entries.lookup key' = none := by
        rw [List.lookup_eq_none_iff] at hlookup ⊢
        intro entry hentry
        have hne := hlookup entry hentry
        rw [bne, BEq.congr_left hkey] at hne
        exact hne
      rw [BEq.comm] at hkey
      simp [hkey, hnone, BEq.comm (a := key)]
    · have hkey' : ¬ (key' == key) = true := by
        rwa [BEq.comm]
      simp [hkey, hkey', get?]
  | some y =>
    have hcontains : d.contains key = true := contains_iff.mpr ⟨y, hget⟩
    unfold insert
    rw [if_pos hcontains]
    show List.lookup key' _ = _
    rw [lookup_replace]
    have hlookup : d.entries.lookup key = some y := hget
    rw [hlookup]
    rfl

/-- A key is entered, and no other. -/
theorem contains_insert [EquivBEq κ] :
    (d.insert key x).contains key' = (key == key' || d.contains key') := by
  unfold contains
  rw [get?_insert]
  cases key == key' <;> rfl

/-- Where keys are told apart as they are, the keys listed are those that are found. -/
theorem contains_iff_mem_keys [LawfulBEq κ] : d.contains key = true ↔ key ∈ d.keys := by
  rw [← Bool.not_eq_false, contains_eq_false_iff, get?, lookup_eq_none_iff_not_mem,
    Classical.not_not]
  rfl

end Dict

/-! ## Distinct keys -/

theorem mem_of_lookup_eq_some {α β : Type} [BEq α] [LawfulBEq α] {entries : List (α × β)} {key : α}
    {x : β} (h : entries.lookup key = some x) : (key, x) ∈ entries := by
  obtain ⟨before, after, rfl, -⟩ := List.lookup_eq_some_iff.mp h
  simp

/-- Where names are distinct, an entry is the only one, hence the first, under its name. -/
theorem lookup_eq_some_iff_mem {α : Type} {entries : List (String × α)}
    (hnodup : (entries.map (·.1)).Nodup) {name : String} {x : α} :
    entries.lookup name = some x ↔ (name, x) ∈ entries := by
  refine ⟨mem_of_lookup_eq_some, fun hmem => ?_⟩
  induction entries with
  | nil => cases hmem
  | cons entry rest ih =>
    obtain ⟨n, y⟩ := entry
    rw [List.map_cons, List.nodup_cons] at hnodup
    rcases List.mem_cons.mp hmem with heq | hrest
    · cases heq
      exact List.lookup_cons_self
    · -- the first entry has another name, or the name would stand twice
      have hne : name ≠ n := by
        rintro rfl
        exact hnodup.1 (List.mem_map.mpr ⟨_, hrest, rfl⟩)
      rw [List.lookup_cons, beq_false_of_ne hne]
      exact ih hnodup.2 hrest

end TaggedUnion
