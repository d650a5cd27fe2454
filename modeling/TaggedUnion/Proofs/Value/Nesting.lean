import TaggedUnion.Proofs.Schema.References
import TaggedUnion.Proofs.Value.WellFormed
import TaggedUnion.Value.Render

/-!
# How deep instances nest

An instance in a field is of a type that was registered before the type of the instance around it. So
the identity of a type bounds how deep its instances go, and with it how deep the recursions over
values go.

* `EnumValue.Nests`: one instance is a field of another.
* `EnumValue.WellFormed.length_le_of_nests`: from an instance inwards, there are no more instances on
  any way than the identity of its type allows.
* `EnumValue.equalWithin`, `EnumValue.renderWithin`: equality and text where only so many instances
  can be worked on at once, one inside the other.
* `EnumValue.WellFormed.equalWithin_eq`, `EnumValue.WellFormed.renderWithin_eq`: as many as the
  identity allows are enough.
-/

namespace TaggedUnion

/-- The instance `u` is a field of `v`. -/
def EnumValue.Nests (v u : EnumValue) : Prop :=
  .enum u ∈ v.fields

section Bound

variable {r : Registry} {v u : EnumValue}

/-- Going into an instance leads to a smaller identity. -/
theorem EnumValue.WellFormed.index_lt_of_nests (h : v.WellFormed r) (hr : r.Reachable)
    (hu : v.Nests u) : u.type.id.index < v.type.id.index := by
  -- the type of the inner instance is declared for the field that holds it
  have hfield : FieldType.enum u.type.ref ∈ v.variant.shape.fieldTypes := by
    rw [← h.typed]
    exact List.mem_map_of_mem (f := Value.type) hu
  exact hr.index_lt_of_mentions h.registered ⟨v.variant, List.getElem_mem _, hfield⟩

/-- Identities go down along a way inwards, so it has no more instances than the identity allows.
Induction on the way. -/
theorem EnumValue.WellFormed.length_le_of_nests (h : v.WellFormed r) (hr : r.Reachable)
    {path : List EnumValue} (hpath : (v :: path).IsChain EnumValue.Nests) :
    (v :: path).length ≤ v.type.id.index + 1 := by
  induction path generalizing v with
  | nil => simp
  | cons u path ih =>
    obtain ⟨hu, hrest⟩ := List.isChain_cons_cons.mp hpath
    have hlt := h.index_lt_of_nests hr hu
    have hle := ih (h.nested hu) hrest
    simp only [List.length_cons] at hle ⊢
    omega

end Bound

/-! ## Equality with a bound -/

mutual

/-- Compares two values as `==` does, but gives up where this would go into more than `depth`
instances, one inside the other. -/
def Value.equalWithin : Nat → Value → Value → Option Bool
  | depth, .enum a, .enum b => a.equalWithin depth b
  | _, x, y => some (x == y)

def EnumValue.equalWithin : Nat → EnumValue → EnumValue → Option Bool
  | 0, _, _ => none
  | depth + 1, ⟨t, i, xs⟩, ⟨u, j, ys⟩ =>
    if t == u && i.val == j.val then Value.equalAllWithin depth xs ys else some false

def Value.equalAllWithin : Nat → List Value → List Value → Option Bool
  | _, [], [] => some true
  | depth, x :: xs, y :: ys =>
    match x.equalWithin depth y with
    | none => none
    | some false => some false
    | some true => Value.equalAllWithin depth xs ys
  | _, _, _ => some false

end

theorem Value.equalAllWithin_eq {depth : Nat} {xs : List Value}
    (h : ∀ x ∈ xs, ∀ y, x.equalWithin depth y = some (x == y)) (ys : List Value) :
    equalAllWithin depth xs ys = some (equalAll xs ys) := by
  induction xs generalizing ys with
  | nil => cases ys <;> rfl
  | cons x xs ih =>
    cases ys with
    | nil => rfl
    | cons y ys =>
      have hx := h x List.mem_cons_self y
      have hxs := ih (fun x' hx' => h x' (List.mem_cons_of_mem _ hx')) ys
      rw [equalAllWithin, hx, hxs]
      show _ = some (x == y && equalAll xs ys)
      cases x == y <;> rfl

/-- Induction on the instance: its fields have one level less to go, and smaller identities. -/
theorem EnumValue.WellFormed.equalWithin_eq {r : Registry} (hr : r.Reachable) {v : EnumValue}
    (h : v.WellFormed r) {depth : Nat} (hdepth : v.type.id.index < depth) (u : EnumValue) :
    v.equalWithin depth u = some (v == u) := by
  induction h generalizing depth u with
  | @mk v hregistered htyped hnested ih =>
    have hv : v.WellFormed r := .mk hregistered htyped hnested
    cases depth with
    | zero => exact absurd hdepth (Nat.not_lt_zero _)
    | succ depth =>
      have hfields : ∀ x ∈ v.fields, ∀ y, x.equalWithin depth y = some (x == y) := by
        intro x hx y
        cases x with
        | enum w =>
          cases y with
          | enum z =>
            -- the identity has gone down, so one level less is enough
            have hlt := hv.index_lt_of_nests hr hx
            exact ih w hx (by omega) z
          | _ => rfl
        | _ => cases y <;> rfl
      obtain ⟨t, i, xs⟩ := v
      obtain ⟨t', j, ys⟩ := u
      rw [equalWithin, Value.equalAllWithin_eq hfields]
      show _ = some (t == t' && i.val == j.val && Value.equalAll xs ys)
      cases t == t' && i.val == j.val <;> rfl

/-! ## Text with a bound -/

/-- The text of an instance from the texts of its fields. -/
def Variant.renderWith (v : Variant) (texts : List String) : String :=
  match v.shape with
  | .unit => v.name
  | .positional _ => Text.tuple v.name texts
  | .named declared =>
    Text.record v.name (List.zipWith (fun f text => Text.labelled f.name text) declared texts)

theorem EnumValue.render_eq (v : EnumValue) :
    v.render = v.variant.renderWith (Value.renderAll v.fields) := by
  cases v
  rfl

mutual

/-- The text of a value, as long as it is not more than `depth` instances deep. -/
def Value.renderWithin : Nat → Value → Option String
  | depth, .enum v => v.renderWithin depth
  | _, x => some x.render

def EnumValue.renderWithin : Nat → EnumValue → Option String
  | 0, _ => none
  | depth + 1, ⟨t, tag, fields⟩ =>
    (Value.renderAllWithin depth fields).map (t.variants.get tag).renderWith

def Value.renderAllWithin : Nat → List Value → Option (List String)
  | _, [] => some []
  | depth, x :: xs =>
    match x.renderWithin depth with
    | none => none
    | some text => (Value.renderAllWithin depth xs).map (text :: ·)

end

theorem Value.renderAllWithin_eq {depth : Nat} {xs : List Value}
    (h : ∀ x ∈ xs, x.renderWithin depth = some x.render) :
    renderAllWithin depth xs = some (renderAll xs) := by
  induction xs with
  | nil => rfl
  | cons x xs ih =>
    have hxs := ih fun x' hx' => h x' (List.mem_cons_of_mem _ hx')
    rw [renderAllWithin, h x List.mem_cons_self, hxs]
    rfl

/-- Induction on the instance, as for equality. -/
theorem EnumValue.WellFormed.renderWithin_eq {r : Registry} (hr : r.Reachable) {v : EnumValue}
    (h : v.WellFormed r) {depth : Nat} (hdepth : v.type.id.index < depth) :
    v.renderWithin depth = some v.render := by
  induction h generalizing depth with
  | @mk v hregistered htyped hnested ih =>
    have hv : v.WellFormed r := .mk hregistered htyped hnested
    cases depth with
    | zero => exact absurd hdepth (Nat.not_lt_zero _)
    | succ depth =>
      have hfields : ∀ x ∈ v.fields, x.renderWithin depth = some x.render := by
        intro x hx
        cases x with
        | enum w =>
          have hlt := hv.index_lt_of_nests hr hx
          exact ih w hx (by omega)
        | _ => rfl
      rw [EnumValue.render_eq, ← Option.map_some, ← Value.renderAllWithin_eq hfields]
      obtain ⟨t, i, xs⟩ := v
      rw [renderWithin]
      rfl

end TaggedUnion
