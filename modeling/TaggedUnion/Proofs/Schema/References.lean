import TaggedUnion.Proofs.Schema.Reachable
import Mathlib.Order.WellFounded

/-!
# References between types

A type is declared over types that are registered already, so references go back in time. No check
looks for cycles; there are none because a type has no reference to it before it has been registered,
and because identities are given out in order.

* `EnumType.Mentions`: the references that occur in the declaration of a type.
* `Registry.Reachable.index_lt_of_mentions`: a type refers to types of smaller identity.
* `Registry.Contains`: a registered type has a field of another one.
* `Registry.Reachable.wellFounded_contains`, `Registry.Reachable.not_contains_self`: chains of fields
  end, and do not come back.
-/

namespace TaggedUnion

/-- The declaration of the type has a field of the type that `ref` refers to. -/
def EnumType.Mentions (t : EnumType) (ref : TypeRef) : Prop :=
  ∃ v ∈ t.variants, FieldType.enum ref ∈ v.shape.fieldTypes

namespace Registry

variable {r r' : Registry} {t u : EnumType} {ref : TypeRef}

theorem Consistent.exists_of_mentions (h : r.Consistent) (ht : t ∈ r.types)
    (href : t.Mentions ref) : ∃ u ∈ r.types, u.ref = ref := by
  obtain ⟨v, hv, hfield⟩ := href
  exact h.declares t ht v hv _ hfield

/-- The step: what a new type refers to has been registered before it, and got a smaller identity. -/
theorem Consistent.index_lt_of_insert (h : r.Consistent) {name : String} {vs : List Variant}
    (hknown : r.Declares vs) (hr : r.insert name vs = (.ok t, r')) (href : t.Mentions ref) :
    ref.id.index < t.id.index := by
  obtain ⟨-, -, rfl, -⟩ := insert_eq_ok_iff.mp hr
  obtain ⟨v, hv, hfield⟩ := href
  obtain ⟨u, hu, rfl⟩ := hknown v hv _ hfield
  exact h.index_lt_nextId hu

/-- Induction on the registrations. Types that were there keep their declarations. -/
theorem Reachable.index_lt_of_mentions (hr : r.Reachable) (ht : t ∈ r.types)
    (href : t.Mentions ref) : ref.id.index < t.id.index := by
  -- both ways to register go through the same entry
  have hstep : ∀ {r r' : Registry} {plain name : String} {vs : List Variant}
      {result : Except RegistryError EnumType}, r.Reachable →
      (t ∈ r.types → ref.id.index < t.id.index) → r.Declares vs →
      r.enter plain name vs = (result, r') → t ∈ r'.types → ref.id.index < t.id.index := by
    intro r r' plain name vs result h ih hknown hreg ht
    rcases mem_types_of_enter hreg ht with hold | ⟨-, hinsert⟩
    · exact ih hold
    · exact h.consistent.index_lt_of_insert hknown hinsert href
  induction hr with
  | empty => cases ht
  | register h hknown hreg ih => exact hstep h ih hknown hreg ht
  | registerInstance h _ hknown hreg ih => exact hstep h ih hknown hreg ht

/-! ## Chains of fields -/

/-- Of two registered types, the first has a field of the second. -/
structure Contains (r : Registry) (t u : EnumType) : Prop where
  container : t ∈ r.types
  content : u ∈ r.types
  field : ∃ ref, t.Mentions ref ∧ ref.id = u.id

/-- A field is of a type of smaller identity. -/
theorem Reachable.index_lt_of_contains (hr : r.Reachable) (h : r.Contains t u) :
    u.id.index < t.id.index := by
  obtain ⟨ref, href, hid⟩ := h.field
  rw [← hid]
  exact hr.index_lt_of_mentions h.container href

/-- Going from types to types of their fields comes to an end. -/
theorem Reachable.wellFounded_contains (hr : r.Reachable) :
    WellFounded (Function.swap r.Contains) :=
  Subrelation.wf (fun h => hr.index_lt_of_contains h) (measure fun t : EnumType => t.id.index).wf

/-- No type contains itself, in however many steps. -/
theorem Reachable.not_contains_self (hr : r.Reachable) : ¬ Relation.TransGen r.Contains t t := by
  intro h
  have hchains := hr.wellFounded_contains.transGen
  exact hchains.irrefl.irrefl t (Relation.transGen_swap.mpr h)

end Registry

end TaggedUnion
