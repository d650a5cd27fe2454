import TaggedUnion.Proofs.Schema.WellFormed
import Mathlib.Data.List.Infix

/-!
# Reachable registries

The registries that clients can bring about, and what holds in all of them. A client can refer to a
type only after the type has been registered, so a declaration mentions types that its registry
knows already.

* `Registry.Knows`, `Registry.Declares`: the field types that exist once a registry holds its types.
* `Registry.Reachable`: what calls make of the empty registry, in any order and number, whether they
  succeed or fail.
* `Registry.enter_eq_ok_iff`, `Registry.eq_of_enter_eq_error`: everything that a call can do.
* `Registry.Consistent`: the table has each type under its name, the counter has counted them, the
  identities are those below the counter, names are distinct, and every type is well formed over types
  that the registry knows. `Registry.Reachable.consistent` proves it.
* `Registry.Consistent.eq_of_id_eq`, `Registry.Consistent.eq_of_beq`: an identity tells a type from
  all others, so comparing identities is comparing types.
* `Registry.Consistent.lookup?_eq_some_iff`: a look-up finds the registered types by their names.
-/

namespace TaggedUnion

namespace Registry

/-- The field types that exist once `r` holds the registered types. -/
def Knows (r : Registry) : FieldType → Prop
  | .scalar _ => True
  | .enum ref => ∃ t ∈ r.types, t.ref = ref

/-- The variants have no fields but those of types that the registry knows. -/
def Declares (r : Registry) (vs : List Variant) : Prop :=
  ∀ v ∈ vs, ∀ type ∈ v.shape.fieldTypes, r.Knows type

/-- The registries that clients can bring about. A call that fails is a step as well. -/
inductive Reachable : Registry → Prop
  | empty : Reachable {}
  | register {r r' : Registry} {name : String} {vs : List Variant}
      {result : Except RegistryError EnumType} (h : Reachable r) (hknown : r.Declares vs)
      (hr : r.register name vs = (result, r')) : Reachable r'
  | registerInstance {r r' : Registry} {generic : String} {args : List FieldType}
      {vs : List Variant} {result : Except RegistryError EnumType} (h : Reachable r)
      (hargs : ∀ arg ∈ args, r.Knows arg) (hknown : r.Declares vs)
      (hr : r.registerInstance generic args vs = (result, r')) : Reachable r'

/-- What holds in every reachable registry: the table, the counter and the types in the table agree. -/
structure Consistent (r : Registry) : Prop where
  key_eq : ∀ entry ∈ r.byName.entries, entry.1 = entry.2.name
  nextId_eq : r.nextId = r.count
  id_eq : ∀ (i : Nat) (t : EnumType), r.types[i]? = some t → t.id = ⟨i⟩
  names_nodup : (r.types.map (·.name)).Nodup
  wellFormed : ∀ t ∈ r.types, t.WellFormed
  declares : ∀ t ∈ r.types, r.Declares t.variants

/-! ## Registries grow -/

theorem Knows.mono {r r' : Registry} (h : r.types <+: r'.types) {type : FieldType}
    (hknown : r.Knows type) : r'.Knows type := by
  cases type with
  | scalar s => trivial
  | enum ref =>
    obtain ⟨t, ht, href⟩ := hknown
    exact ⟨t, h.subset ht, href⟩

theorem Declares.mono {r r' : Registry} (h : r.types <+: r'.types) {vs : List Variant}
    (hknown : r.Declares vs) : r'.Declares vs :=
  fun v hv type htype => (hknown v hv type htype).mono h

section Steps

variable {r r' : Registry} {name plain generic : String} {args : List FieldType} {vs : List Variant}
  {t : EnumType} {e : RegistryError} {result : Except RegistryError EnumType}

/-- A type that is added goes to the end, and no other moves. -/
theorem types_of_insert (h : r.insert name vs = (.ok t, r')) : r'.types = r.types ++ [t] := by
  obtain ⟨-, hfree, -, rfl⟩ := insert_eq_ok_iff.mp h
  exact Dict.values_insert hfree

theorem prefix_of_insert (h : r.insert name vs = (.ok t, r')) : r.types <+: r'.types := by
  rw [types_of_insert h]
  exact List.prefix_append _ _

theorem mem_of_insert (h : r.insert name vs = (.ok t, r')) : t ∈ r'.types := by
  rw [types_of_insert h]
  simp

theorem mem_types_of_insert (h : r.insert name vs = (.ok t, r')) {u : EnumType} :
    u ∈ r'.types ↔ u ∈ r.types ∨ u = t := by
  rw [types_of_insert h]
  simp

theorem name_of_insert (h : r.insert name vs = (.ok t, r')) : t.name = name := by
  obtain ⟨-, -, rfl, -⟩ := insert_eq_ok_iff.mp h
  rfl

/-- A call that succeeds has checked the client's part of the name and added the type. -/
theorem enter_eq_ok_iff :
    r.enter plain name vs = (.ok t, r') ↔
      checkPlainName plain = .ok () ∧ r.insert name vs = (.ok t, r') := by
  unfold enter
  cases checkPlainName plain <;> simp

/-- A call that fails gives the registry back as it was. -/
theorem eq_of_enter_eq_error (h : r.enter plain name vs = (.error e, r')) : r' = r := by
  unfold enter at h
  cases hplain : checkPlainName plain with
  | error e' =>
    rw [hplain] at h
    cases h
    rfl
  | ok u =>
    rw [hplain] at h
    exact (insert_eq_error_iff_vet.mp h).2

/-- A call leaves the types that were there in front, whether it succeeds or fails. -/
theorem prefix_of_enter (h : r.enter plain name vs = (result, r')) : r.types <+: r'.types := by
  cases result with
  | error e => rw [eq_of_enter_eq_error h]
  | ok t => exact prefix_of_insert (enter_eq_ok_iff.mp h).2

/-- A type that is there after a call was there before, or the call has added it. -/
theorem mem_types_of_enter (h : r.enter plain name vs = (result, r')) (ht : t ∈ r'.types) :
    t ∈ r.types ∨ checkPlainName plain = .ok () ∧ r.insert name vs = (.ok t, r') := by
  cases result with
  | error e =>
    rw [eq_of_enter_eq_error h] at ht
    exact .inl ht
  | ok u =>
    obtain ⟨hplain, hinsert⟩ := enter_eq_ok_iff.mp h
    rcases (mem_types_of_insert hinsert).mp ht with hold | rfl
    · exact .inl hold
    · exact .inr ⟨hplain, hinsert⟩

/-- An instance that was registered was entered under its generated name. -/
theorem insert_of_registerInstance (h : r.registerInstance generic args vs = (.ok t, r')) :
    r.insert (instanceName generic args) vs = (.ok t, r') :=
  (enter_eq_ok_iff.mp h).2

/-! ## The invariant -/

theorem Consistent.empty : Consistent {} where
  key_eq := by simp
  nextId_eq := rfl
  id_eq := by simp [types, Dict.values]
  names_nodup := by simp [types, Dict.values]
  wellFormed := by simp [types, Dict.values]
  declares := by simp [types, Dict.values]

theorem count_eq_length_types : r.count = r.types.length := by
  simp [count, types, Dict.size, Dict.values]

/-- The keys of the table are the names of the types in it. -/
theorem Consistent.keys_eq (h : r.Consistent) : r.byName.keys = r.types.map (·.name) := by
  rw [types, Dict.values, List.map_map]
  exact List.map_congr_left h.key_eq

/-- A look-up finds the registered types by their names. -/
theorem Consistent.lookup?_eq_some_iff (h : r.Consistent) :
    r.lookup? name = some t ↔ t ∈ r.types ∧ t.name = name := by
  have hnodup : (r.byName.entries.map (·.1)).Nodup := by
    rw [show r.byName.entries.map (·.1) = _ from h.keys_eq]
    exact h.names_nodup
  rw [lookup?, Dict.get?, lookup_eq_some_iff_mem hnodup, types, Dict.values, List.mem_map]
  constructor
  · intro hmem
    exact ⟨⟨_, hmem, rfl⟩, (h.key_eq _ hmem).symm⟩
  · rintro ⟨⟨entry, hmem, rfl⟩, rfl⟩
    rw [← h.key_eq entry hmem]
    exact hmem

theorem Consistent.lookup?_eq_none_iff (h : r.Consistent) :
    r.lookup? name = none ↔ name ∉ r.types.map (·.name) := by
  rw [Option.eq_none_iff_forall_ne_some]
  simp [h.lookup?_eq_some_iff]

/-- A type that is added is new. -/
theorem Consistent.not_mem_of_insert (h : r.Consistent) (hr : r.insert name vs = (.ok t, r')) :
    t ∉ r.types := by
  obtain ⟨-, hfree, -, -⟩ := insert_eq_ok_iff.mp hr
  rw [h.lookup?_eq_none_iff, ← name_of_insert hr] at hfree
  exact fun ht => hfree (List.mem_map_of_mem ht)

/-- The step: an insertion keeps the registry consistent. The table and the counter grow by one, and the
new type stands at the end, where its identity says; all else stays where it is. -/
theorem Consistent.insert (h : r.Consistent) (hknown : r.Declares vs)
    (hr : r.insert name vs = (.ok t, r')) : r'.Consistent := by
  have hgrows := prefix_of_insert hr
  have htypes := types_of_insert hr
  have hmem := fun u => (mem_types_of_insert hr (u := u)).mp
  have hname := name_of_insert hr
  obtain ⟨hwf, hfree, hnew, rfl⟩ := insert_eq_ok_iff.mp hr
  have hvariants : t.variants = vs := congrArg EnumType.variants hnew
  refine ⟨?_, ?_, ?_, ?_, ?_, ?_⟩
  · -- the new key is the name of the new type
    intro entry hentry
    rw [Dict.entries_insert hfree, List.mem_append, List.mem_singleton] at hentry
    rcases hentry with hentry | rfl
    · exact h.key_eq entry hentry
    · exact hname.symm
  · -- counter and table grow by one together
    show r.nextId + 1 = (r.byName.insert name t).size
    rw [Dict.size_insert hfree, h.nextId_eq]
    rfl
  · -- old places are as before, and the new place is the one the counter gave out
    intro i u hu
    rw [htypes] at hu
    rcases Nat.lt_trichotomy i r.types.length with hi | hi | hi
    · rw [List.getElem?_append_left hi] at hu
      exact h.id_eq i u hu
    · subst hi
      rw [List.getElem?_append_right (Nat.le_refl _), Nat.sub_self] at hu
      cases hu
      rw [hnew, ← count_eq_length_types, ← h.nextId_eq]
      rfl
    · rw [List.getElem?_eq_none (by simp; omega)] at hu
      cases hu
  · -- the look-up has found the name free
    rw [h.lookup?_eq_none_iff] at hfree
    rw [htypes, List.map_append, List.nodup_append]
    refine ⟨h.names_nodup, by simp, ?_⟩
    intro a ha b hb
    rw [List.map_cons, List.map_nil, List.mem_singleton] at hb
    subst hb
    rintro rfl
    exact hfree (hname ▸ ha)
  · intro u hu
    rcases hmem u hu with hu | rfl
    · exact h.wellFormed u hu
    · exact hwf
  · intro u hu
    rcases hmem u hu with hu | hu
    · exact (h.declares u hu).mono hgrows
    · rw [hu, hvariants]
      exact hknown.mono hgrows

/-- A call keeps the registry consistent, whether it succeeds or fails. -/
theorem Consistent.enter (h : r.Consistent) (hknown : r.Declares vs)
    (hr : r.enter plain name vs = (result, r')) : r'.Consistent := by
  cases result with
  | error e =>
    rw [eq_of_enter_eq_error hr]
    exact h
  | ok t => exact h.insert hknown (enter_eq_ok_iff.mp hr).2

end Steps

/-- The run: induction on the calls, with `Consistent.enter` as the step. -/
theorem Reachable.consistent {r : Registry} (h : r.Reachable) : r.Consistent := by
  induction h with
  | empty => exact .empty
  | register _ hknown hr ih => exact ih.enter hknown hr
  | registerInstance _ _ hknown hr ih => exact ih.enter hknown hr

/-! ## Identities -/

instance : ReflBEq FieldType where
  rfl := by
    intro type
    cases type with
    | scalar s => exact beq_self_eq_true s
    | enum ref => exact beq_self_eq_true ref.id

namespace Consistent

variable {r : Registry}

/-- The identities in use are those below the next one, each used once. -/
theorem map_index (h : r.Consistent) : r.types.map (·.id.index) = List.range r.count := by
  apply List.ext_getElem
  · rw [List.length_map, List.length_range, count_eq_length_types]
  · intro i hi hi'
    rw [List.length_map] at hi
    rw [List.getElem_map, List.getElem_range, h.id_eq i _ (List.getElem?_eq_getElem hi)]

/-- The identities in use are smaller than the next one. -/
theorem index_lt_nextId (h : r.Consistent) {t : EnumType} (ht : t ∈ r.types) :
    t.id.index < r.nextId := by
  have hmem : t.id.index ∈ r.types.map (·.id.index) := List.mem_map_of_mem ht
  rw [h.map_index, ← h.nextId_eq] at hmem
  exact List.mem_range.mp hmem

/-- A type that is added gets an identity that no other type has. -/
theorem id_ne_of_insert (h : r.Consistent) {r' : Registry} {name : String} {vs : List Variant}
    {t u : EnumType} (hr : r.insert name vs = (.ok t, r')) (hu : u ∈ r.types) : u.id ≠ t.id := by
  obtain ⟨-, -, rfl, -⟩ := insert_eq_ok_iff.mp hr
  intro hid
  have hlt := h.index_lt_nextId hu
  rw [hid] at hlt
  exact Nat.lt_irrefl _ hlt

/-- A registered type stands where its identity says. -/
theorem getElem?_index (h : r.Consistent) {t : EnumType} (ht : t ∈ r.types) :
    r.types[t.id.index]? = some t := by
  obtain ⟨i, hi⟩ := List.mem_iff_getElem?.mp ht
  rw [h.id_eq i t hi]
  exact hi

/-- Two registered types with one identity are one type: each stands where its identity says. -/
theorem eq_of_id_eq (h : r.Consistent) {t u : EnumType} (ht : t ∈ r.types) (hu : u ∈ r.types)
    (hid : t.id = u.id) : t = u := by
  have hfound := h.getElem?_index ht
  rw [hid, h.getElem?_index hu] at hfound
  exact (Option.some.inj hfound).symm

/-- Comparing field types compares identities, and among known types that is enough. -/
theorem eq_of_beq (h : r.Consistent) {a b : FieldType} (ha : r.Knows a) (hb : r.Knows b)
    (hab : (a == b) = true) : a = b := by
  cases a with
  | scalar s =>
    cases b with
    | scalar s' =>
      have hs : (s == s') = true := hab
      rw [beq_iff_eq.mp hs]
    | enum ref => exact absurd hab (by simp [BEq.beq, instBEqFieldType.beq])
  | enum ref =>
    cases b with
    | scalar s => exact absurd hab (by simp [BEq.beq, instBEqFieldType.beq])
    | enum ref' =>
      -- both references are to registered types, which their identities tell apart
      obtain ⟨t, ht, rfl⟩ := ha
      obtain ⟨u, hu, rfl⟩ := hb
      have hid : t.id = u.id := beq_iff_eq.mp (show (t.ref.id == u.ref.id) = true from hab)
      rw [h.eq_of_id_eq ht hu hid]

/-- Among known types the comparison by identity is equality. -/
theorem beq_iff_eq_of_knows (h : r.Consistent) {a b : FieldType} (ha : r.Knows a) (hb : r.Knows b) :
    (a == b) = true ↔ a = b := by
  constructor
  · exact h.eq_of_beq ha hb
  · rintro rfl
    exact beq_self_eq_true a

end Consistent

/-! ## A registry with one type -/

/-- A type with a variant of each kind, the first type to be registered. -/
def message : EnumType where
  id := ⟨0⟩
  name := "Message"
  variants :=
    [⟨"Quit", .unit⟩, ⟨"Move", .named [⟨"x", .scalar .int⟩, ⟨"y", .scalar .int⟩]⟩,
      ⟨"Write", .positional [.scalar .text]⟩]
  index := ⟨[("Quit", 0), ("Move", 1), ("Write", 2)]⟩

/-- The registry that holds this type alone. -/
def onlyMessage : Registry where
  byName := ⟨[("Message", message)]⟩
  nextId := 1

/-- The fields of this type are scalars, so any registry can take it. -/
theorem declares_message (r : Registry) : r.Declares message.variants := by
  intro v hv type htype
  simp only [message, List.mem_cons, List.not_mem_nil, or_false] at hv
  rcases hv with rfl | rfl | rfl
  · cases htype
  · simp only [Shape.fieldTypes, List.map_cons, List.map_nil, List.mem_cons, List.not_mem_nil,
      or_false, or_self] at htype
    subst htype
    trivial
  · simp only [Shape.fieldTypes, List.mem_cons, List.not_mem_nil, or_false] at htype
    subst htype
    trivial

theorem reachable_message : Reachable onlyMessage := by
  have hregister : Registry.register {} "Message" message.variants = (.ok message, onlyMessage) :=
    rfl
  exact .register .empty (declares_message _) hregister

end Registry

end TaggedUnion
