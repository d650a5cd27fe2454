import Mathlib.Data.List.Pairwise
import TaggedUnion.Proofs.Value.Conform

/-!
# Equality is a partial equivalence

Values are compared part by part, and payloads by name if they have names. Both comparisons are
symmetric and transitive. A value differs from itself exactly if there is a NaN in it, at whatever
depth. Payloads by name are compared by two searches, each for the first field of a name; as each side
is searched for the fields of the other, it does not matter which one comes first.

* `Value.fieldsInduction`: what holds of scalars, and of an instance if it holds of its fields, holds
  of all values.
* `Value.beq_iff`, `EnumValue.beq_iff`, `Value.equalAll_iff_forall₂`: what is compared.
* `Value.floats`: the floats in a value. `Value.beq_self_iff` says that no other parts matter for
  reflexivity.
* `Payload.SameFields`: what two payloads by name have in common if they are equal, said without
  looking anything up. `Payload.named_beq_iff` proves it.
* `equality_partial_equivalence`: the laws of all three comparisons.
-/

namespace TaggedUnion

/-! ## What is compared -/

/-- Induction on the instances in a value. -/
@[elab_as_elim]
theorem Value.fieldsInduction {P : Value → Prop} (scalar : ∀ x : Value, x.enum? = none → P x)
    (enum : ∀ v : EnumValue, (∀ x ∈ v.fields, P x) → P (.enum v)) (x : Value) : P x :=
  @Value.rec P (fun v => ∀ x ∈ v.fields, P x) (fun xs => ∀ x ∈ xs, P x)
    (fun _ => scalar _ rfl) (fun _ => scalar _ rfl) (fun _ => scalar _ rfl) (fun _ => scalar _ rfl)
    (fun _ => scalar _ rfl) (scalar _ rfl) enum (fun _ _ _ h => h) (by simp)
    (fun _ _ hx hxs => List.forall_mem_cons.mpr ⟨hx, hxs⟩) x

theorem Value.equalAll_iff_forall₂ {xs ys : List Value} :
    Value.equalAll xs ys = true ↔ List.Forall₂ (fun x y => (x == y) = true) xs ys := by
  induction xs generalizing ys with
  | nil => cases ys <;> simp [Value.equalAll]
  | cons x xs ih =>
    cases ys with
    | nil => simp [Value.equalAll]
    | cons y ys =>
      rw [Value.equalAll, Bool.and_eq_true, List.forall₂_cons, ih]
      rfl

/-- Instances are equal if types, tags and fields are. -/
theorem EnumValue.beq_iff {a b : EnumValue} :
    (a == b) = true ↔ a.type.id = b.type.id ∧ a.tag.val = b.tag.val ∧
      List.Forall₂ (fun x y => (x == y) = true) a.fields b.fields := by
  obtain ⟨t, i, xs⟩ := a
  obtain ⟨u, j, ys⟩ := b
  show (t.id == u.id && i.val == j.val && Value.equalAll xs ys) = true ↔ _
  rw [Bool.and_eq_true, Bool.and_eq_true, beq_iff_eq, beq_iff_eq, Value.equalAll_iff_forall₂,
    and_assoc]

/-- Two values are equal as floats, as instances, or because they are the same scalar. -/
theorem Value.beq_iff {x y : Value} :
    (x == y) = true ↔
      (∃ a b, x = .float a ∧ y = .float b ∧ (a == b) = true) ∨
      (∃ v u, x = .enum v ∧ y = .enum u ∧ (v == u) = true) ∨
      (x = y ∧ x.float? = none ∧ x.enum? = none) := by
  cases x <;> cases y <;> simp [BEq.beq, Value.equal, Value.float?, Value.enum?]

/-! ## Values and instances -/

theorem forall₂_comp {α β γ : Type} {R : α → β → Prop} {S : β → γ → Prop} {xs : List α}
    {ys : List β} {zs : List γ} (h : List.Forall₂ R xs ys) (h' : List.Forall₂ S ys zs) :
    List.Forall₂ (fun x z => ∃ y, R x y ∧ S y z) xs zs := by
  induction h generalizing zs with
  | nil =>
    rw [List.forall₂_nil_left_iff.mp h']
    exact .nil
  | cons hxy _ ih =>
    obtain ⟨z, zs, hyz, hzs, rfl⟩ := List.forall₂_cons_left_iff.mp h'
    exact .cons ⟨_, hxy, hyz⟩ (ih hzs)

/-- Induction on the instances in `x`. -/
theorem Value.beq_symm {x y : Value} (h : (x == y) = true) : (y == x) = true := by
  induction x using Value.fieldsInduction generalizing y with
  | scalar x hx =>
    rcases Value.beq_iff.mp h with ⟨a, b, rfl, rfl, hab⟩ | ⟨v, u, rfl, -, -⟩ | ⟨rfl, hscalar⟩
    · exact Value.beq_iff.mpr (.inl ⟨b, a, rfl, rfl, BEq.symm hab⟩)
    · cases hx
    · exact h
  | enum v ih =>
    rcases Value.beq_iff.mp h with ⟨a, b, hcontra, -, -⟩ | ⟨_, u, ⟨⟩, rfl, hvu⟩ | ⟨-, -, hcontra⟩
    · cases hcontra
    · obtain ⟨hid, htag, hfields⟩ := EnumValue.beq_iff.mp hvu
      -- the fields of `v` are those that the hypothesis of the induction speaks of
      have hall := (List.forall₂_and_left v.fields u.fields).mpr ⟨ih, hfields⟩
      have hflip : List.Forall₂ (fun y x => (y == x) = true) u.fields v.fields :=
        List.Forall₂.flip (hall.imp fun x y hxy => hxy.1 hxy.2)
      exact EnumValue.beq_iff.mpr ⟨hid.symm, htag.symm, hflip⟩
    · cases hcontra

/-- Induction on the instances in `x`, as for symmetry. -/
theorem Value.beq_trans {x y z : Value} (h : (x == y) = true) (h' : (y == z) = true) :
    (x == z) = true := by
  induction x using Value.fieldsInduction generalizing y z with
  | scalar x hx =>
    rcases Value.beq_iff.mp h with ⟨a, b, rfl, rfl, hab⟩ | ⟨v, u, rfl, -, -⟩ | ⟨rfl, hscalar⟩
    · rcases Value.beq_iff.mp h' with ⟨_, c, ⟨⟩, rfl, hbc⟩ | ⟨v, u, hcontra, -, -⟩ | ⟨rfl, -⟩
      · exact Value.beq_iff.mpr (.inl ⟨a, c, rfl, rfl, BEq.trans hab hbc⟩)
      · cases hcontra
      · exact h
    · cases hx
    · exact h'
  | enum v ih =>
    rcases Value.beq_iff.mp h with ⟨a, b, hcontra, -, -⟩ | ⟨_, u, ⟨⟩, rfl, hvu⟩ | ⟨-, -, hcontra⟩
    · cases hcontra
    · rcases Value.beq_iff.mp h' with ⟨a, b, hcontra, -, -⟩ | ⟨_, w, ⟨⟩, rfl, huw⟩ | ⟨rfl, -⟩
      · cases hcontra
      · obtain ⟨hid, htag, hfields⟩ := EnumValue.beq_iff.mp hvu
        obtain ⟨hid', htag', hfields'⟩ := EnumValue.beq_iff.mp huw
        have hall := (List.forall₂_and_left v.fields w.fields).mpr
          ⟨ih, forall₂_comp hfields hfields'⟩
        refine EnumValue.beq_iff.mpr ⟨hid.trans hid', htag.trans htag', hall.imp ?_⟩
        rintro x z ⟨hx, y, hxy, hyz⟩
        exact hx hxy hyz
      · exact h
    · cases hcontra

instance : PartialEquivBEq Value where
  symm := Value.beq_symm
  trans := Value.beq_trans

/-- Instances are compared like the values that hold them. -/
instance : PartialEquivBEq EnumValue where
  symm := @fun a b h => Value.beq_symm (x := .enum a) (y := .enum b) h
  trans := @fun a b c h h' => Value.beq_trans (x := .enum a) (y := .enum b) (z := .enum c) h h'

mutual

/-- The floats in a value, at any depth. -/
def Value.floats : Value → List Binary64
  | .float x => [x]
  | .enum v => v.floats
  | _ => []

def EnumValue.floats : EnumValue → List Binary64
  | ⟨_, _, fields⟩ => Value.floatsAll fields

def Value.floatsAll : List Value → List Binary64
  | [] => []
  | x :: xs => x.floats ++ Value.floatsAll xs

end

theorem Value.floatsAll_eq (xs : List Value) : Value.floatsAll xs = xs.flatMap Value.floats := by
  induction xs with
  | nil => rfl
  | cons x xs ih => rw [Value.floatsAll, ih, List.flatMap_cons]

theorem EnumValue.mem_floats_iff {v : EnumValue} {f : Binary64} :
    f ∈ v.floats ↔ ∃ x ∈ v.fields, f ∈ x.floats := by
  obtain ⟨t, i, fields⟩ := v
  rw [EnumValue.floats, Value.floatsAll_eq, List.mem_flatMap]

/-- A value differs from itself exactly if one of the floats in it does. -/
theorem Value.beq_self_iff {x : Value} :
    (x == x) = true ↔ ∀ f ∈ x.floats, f.isNaN = false := by
  induction x using Value.fieldsInduction with
  | scalar x hx =>
    cases x with
    | float f =>
      show (f == f) = true ↔ ∀ g ∈ [f], g.isNaN = false
      rw [Binary64.beq_self_iff, List.forall_mem_singleton]
    | enum v => cases hx
    | _ => simp [Value.beq_iff, Value.floats, Value.float?, Value.enum?]
  | enum v ih =>
    -- type and tag are equal to themselves, which leaves the fields
    have hself : (Value.enum v == Value.enum v) = true ↔ ∀ x ∈ v.fields, (x == x) = true := by
      show (v == v) = true ↔ _
      rw [EnumValue.beq_iff, List.forall₂_same]
      simp
    rw [hself, Value.floats]
    simp only [EnumValue.mem_floats_iff]
    constructor
    · rintro hfields f ⟨x, hx, hf⟩
      exact (ih x hx).mp (hfields x hx) f hf
    · intro hfloats x hx
      exact (ih x hx).mpr fun f hf => hfloats f ⟨x, hx, hf⟩

/-! ## Payloads -/

namespace Payload

variable {xs ys zs : List (String × Value)}

/-- Two lists of fields have as many fields and the same names, and all values that they give under one
name are equal. -/
structure SameFields (xs ys : List (String × Value)) : Prop where
  length : xs.length = ys.length
  names : ∀ name, name ∈ xs.map (·.1) ↔ name ∈ ys.map (·.1)
  values : ∀ name x y, (name, x) ∈ xs → (name, y) ∈ ys → (x == y) = true

/-- One search: the first value under each name is equal to the value given. -/
theorem holdsAll_named_iff :
    (named ys).holdsAll xs = true ↔
      ∀ name x, (name, x) ∈ xs → ∃ y, ys.lookup name = some y ∧ (y == x) = true := by
  unfold holdsAll field?
  rw [List.all_eq_true]
  constructor
  · intro h name x hx
    exact (Option.any_eq_true _ _).mp (h (name, x) hx)
  · rintro h ⟨name, x⟩ hx
    exact (Option.any_eq_true _ _).mpr (h name x hx)

theorem exists_lookup_of_mem {name : String} (h : name ∈ ys.map (·.1)) :
    ∃ y, ys.lookup name = some y := by
  obtain ⟨entry, hentry, rfl⟩ := List.mem_map.mp h
  rw [← Option.isSome_iff_exists, List.lookup_isSome_iff]
  exact ⟨entry, hentry, beq_self_eq_true _⟩

theorem names_subset_of_holdsAll (h : (named ys).holdsAll xs = true) {name : String}
    (hname : name ∈ xs.map (·.1)) : name ∈ ys.map (·.1) := by
  obtain ⟨⟨_, x⟩, hx, rfl⟩ := List.mem_map.mp hname
  obtain ⟨y, hy, -⟩ := holdsAll_named_iff.mp h _ x hx
  exact List.mem_map.mpr ⟨_, mem_of_lookup_eq_some hy, rfl⟩

/-- What the two searches find out together. One search compares all values on one side with the first
one of their name on the other side, so if both succeed, any two values of a name are compared by way
of the first ones. -/
theorem named_beq_iff : (named xs == named ys) = true ↔ SameFields xs ys := by
  show (xs.length == ys.length && (named ys).holdsAll xs && (named xs).holdsAll ys) = true ↔ _
  rw [Bool.and_eq_true, Bool.and_eq_true, beq_iff_eq]
  constructor
  · rintro ⟨⟨hlen, hxs⟩, hys⟩
    refine ⟨hlen, fun name => ⟨names_subset_of_holdsAll hxs, names_subset_of_holdsAll hys⟩, ?_⟩
    intro name x y hx hy
    obtain ⟨y₀, hy₀, hyx⟩ := holdsAll_named_iff.mp hxs name x hx
    obtain ⟨x₀, hx₀, hxy⟩ := holdsAll_named_iff.mp hys name y hy
    -- the two values that come first under the name have been compared as well
    obtain ⟨y₁, hy₁, hfirst⟩ := holdsAll_named_iff.mp hxs name x₀ (mem_of_lookup_eq_some hx₀)
    obtain rfl : y₀ = y₁ := Option.some.inj (hy₀.symm.trans hy₁)
    exact BEq.trans (BEq.symm hyx) (BEq.trans hfirst hxy)
  · intro h
    refine ⟨⟨h.length, holdsAll_named_iff.mpr ?_⟩, holdsAll_named_iff.mpr ?_⟩
    · intro name x hx
      obtain ⟨y, hy⟩ := exists_lookup_of_mem ((h.names name).mp (List.mem_map_of_mem hx))
      exact ⟨y, hy, BEq.symm (h.values name x y hx (mem_of_lookup_eq_some hy))⟩
    · intro name y hy
      obtain ⟨x, hx⟩ := exists_lookup_of_mem ((h.names name).mpr (List.mem_map_of_mem hy))
      exact ⟨x, hx, h.values name x y (mem_of_lookup_eq_some hx) hy⟩

namespace SameFields

theorem symm (h : SameFields xs ys) : SameFields ys xs where
  length := h.length.symm
  names name := (h.names name).symm
  values name y x hy hx := BEq.symm (h.values name x y hx hy)

theorem trans (h : SameFields xs ys) (h' : SameFields ys zs) : SameFields xs zs where
  length := h.length.trans h'.length
  names name := (h.names name).trans (h'.names name)
  values := by
    intro name x z hx hz
    obtain ⟨y, hy⟩ := exists_lookup_of_mem ((h.names name).mp (List.mem_map_of_mem hx))
    have hy := mem_of_lookup_eq_some hy
    exact BEq.trans (h.values name x y hx hy) (h'.values name y z hy hz)

/-- No part of it speaks of the order. -/
theorem perm {xs' : List (String × Value)} (hperm : xs'.Perm xs) (h : SameFields xs ys) :
    SameFields xs' ys where
  length := hperm.length_eq.trans h.length
  names name := (hperm.map Prod.fst).mem_iff.trans (h.names name)
  values name x y hx hy := h.values name x y (hperm.mem_iff.mp hx) hy

end SameFields

theorem positional_beq_iff {as bs : List Value} :
    (positional as == positional bs) = true ↔ List.Forall₂ (fun x y => (x == y) = true) as bs :=
  Value.equalAll_iff_forall₂

/-- Equal payloads are of one kind. -/
theorem beq_cases {p q : Payload} (h : (p == q) = true) :
    (p = .unit ∧ q = .unit) ∨ (∃ as bs, p = .positional as ∧ q = .positional bs) ∨
      ∃ xs ys, p = .named xs ∧ q = .named ys := by
  cases p <;> cases q <;> first | (cases h; done) | simp

instance : PartialEquivBEq Payload where
  symm := by
    intro p q h
    rcases beq_cases h with ⟨rfl, rfl⟩ | ⟨as, bs, rfl, rfl⟩ | ⟨xs, ys, rfl, rfl⟩
    · exact h
    · have hflip := (positional_beq_iff.mp h).imp fun x y hxy => BEq.symm hxy
      exact positional_beq_iff.mpr (List.Forall₂.flip hflip)
    · exact named_beq_iff.mpr (named_beq_iff.mp h).symm
  trans := by
    intro p q r h h'
    rcases beq_cases h with ⟨rfl, rfl⟩ | ⟨as, bs, rfl, rfl⟩ | ⟨xs, ys, rfl, rfl⟩
    · exact h'
    · rcases beq_cases h' with ⟨hcontra, -⟩ | ⟨_, cs, ⟨⟩, rfl⟩ | ⟨_, _, hcontra, -⟩
      · cases hcontra
      · have hcomp := forall₂_comp (positional_beq_iff.mp h) (positional_beq_iff.mp h')
        refine positional_beq_iff.mpr (hcomp.imp ?_)
        rintro x z ⟨y, hxy, hyz⟩
        exact BEq.trans hxy hyz
      · cases hcontra
    · rcases beq_cases h' with ⟨hcontra, -⟩ | ⟨_, _, hcontra, -⟩ | ⟨_, zs, ⟨⟩, rfl⟩
      · cases hcontra
      · cases hcontra
      · exact named_beq_iff.mpr ((named_beq_iff.mp h).trans (named_beq_iff.mp h'))

/-- The order of fields by name makes no difference to any comparison. -/
theorem named_beq_congr {xs' : List (String × Value)} (hperm : xs'.Perm xs) (q : Payload) :
    (named xs == q) = (named xs' == q) := by
  cases q with
  | named ys =>
    rw [Bool.eq_iff_iff, named_beq_iff, named_beq_iff]
    exact ⟨.perm hperm, .perm hperm.symm⟩
  | _ => rfl

/-- A list of fields has the same fields as itself if each value is equal to itself, and to the others
of its name. -/
theorem sameFields_self_iff :
    SameFields xs xs ↔ (∀ field ∈ xs, (field.2 == field.2) = true) ∧
      xs.Pairwise fun a b => a.1 = b.1 → (a.2 == b.2) = true := by
  constructor
  · intro h
    refine ⟨fun field hfield => h.values _ _ _ hfield hfield, ?_⟩
    -- all pairs of one name are equal, so those in order are
    refine List.pairwise_of_forall_mem_list ?_
    rintro ⟨name, x⟩ hx ⟨_, y⟩ hy rfl
    exact h.values name x y hx hy
  · rintro ⟨hself, hpairwise⟩
    refine ⟨rfl, fun name => Iff.rfl, ?_⟩
    intro name x y hx hy
    -- of two different fields one comes first, and equality is symmetric
    have : Std.Symm fun a b : String × Value => a.1 = b.1 → (a.2 == b.2) = true :=
      ⟨fun a b hab hname => BEq.symm (hab hname.symm)⟩
    exact hpairwise.forall_of_forall (fun field hfield _ => hself field hfield) hx hy rfl

/-- A payload by name is equal to its reorderings exactly if there is no NaN in it at any depth, and
all values that it gives under one name are equal. In particular a payload without NaN is equal to them
if its names are distinct. A name with two different values is found only where it comes first, in one
list as in the other. -/
theorem reordered_beq_iff {fields fields' : List (String × Value)} (hperm : fields'.Perm fields) :
    (named fields == named fields') = true ↔
      (∀ field ∈ fields, ∀ f ∈ field.2.floats, f.isNaN = false) ∧
        fields.Pairwise fun a b => a.1 = b.1 → (a.2 == b.2) = true := by
  rw [BEq.comm, named_beq_congr hperm.symm, named_beq_iff, sameFields_self_iff]
  refine and_congr_left fun _ => forall₂_congr fun field _ => ?_
  exact Value.beq_self_iff

/-- A name that is given twice, with one value. -/
theorem reordered_beq_iff_repeated :
    (named [("x", .int 1), ("y", .text "a"), ("x", .int 1)]
      == named [("y", .text "a"), ("x", .int 1), ("x", .int 1)]) = true := by
  refine (reordered_beq_iff (.swap _ _ _)).mpr ⟨?_, ?_⟩
  · simp [Value.floats]
  · decide

/-- A payload without NaN that differs from itself, though each of its fields is found in it with an
equal value. -/
theorem repeated_name_ne_self :
    let fields : List (String × Value) := [("x", .int 1), ("x", .int 2)]
    (∀ field ∈ fields, ∀ f ∈ field.2.floats, f.isNaN = false) ∧
      (∀ field ∈ fields, ∃ other ∈ fields, other.1 = field.1 ∧ (other.2 == field.2) = true) ∧
      (named fields == named fields) = false := by
  refine ⟨by simp [Value.floats], ?_, by decide⟩
  intro field hfield
  refine ⟨field, hfield, rfl, ?_⟩
  rw [Value.beq_self_iff]
  rcases List.mem_pair.mp hfield with rfl | rfl <;> simp [Value.floats]

end Payload

/-! ## The laws -/

/-- Equality of values, of instances and of payloads is symmetric and transitive, though not reflexive.
A value or an instance is equal to itself exactly if there is no NaN in it at any depth. Payloads by
name, also those that give a name more than once, are equal to the same payloads in whatever order
their fields come. -/
theorem equality_partial_equivalence :
    ((∀ x y : Value, (x == y) = (y == x)) ∧
      ∀ x y z : Value, (x == y) = true → (y == z) = true → (x == z) = true) ∧
    ((∀ a b : EnumValue, (a == b) = (b == a)) ∧
      ∀ a b c : EnumValue, (a == b) = true → (b == c) = true → (a == c) = true) ∧
    ((∀ p q : Payload, (p == q) = (q == p)) ∧
      ∀ p q r : Payload, (p == q) = true → (q == r) = true → (p == r) = true) ∧
    (∀ x : Value, (x == x) = true ↔ ∀ f ∈ x.floats, f.isNaN = false) ∧
    (∀ a : EnumValue, (a == a) = true ↔ ∀ f ∈ a.floats, f.isNaN = false) ∧
    ∀ (q : Payload) (fields fields' : List (String × Value)), fields'.Perm fields →
      (Payload.named fields == q) = (Payload.named fields' == q) ∧
        (q == .named fields) = (q == .named fields') := by
  refine ⟨⟨fun _ _ => BEq.comm, fun _ _ _ => BEq.trans⟩, ⟨fun _ _ => BEq.comm, fun _ _ _ => BEq.trans⟩,
    ⟨fun _ _ => BEq.comm, fun _ _ _ => BEq.trans⟩, fun _ => Value.beq_self_iff,
    fun a => Value.beq_self_iff (x := .enum a), ?_⟩
  intro q fields fields' hperm
  have hleft := Payload.named_beq_congr hperm
  exact ⟨hleft q, by rw [BEq.comm, hleft q, BEq.comm]⟩

/-- The zero with the sign. -/
def negativeZero : Binary64 :=
  ⟨0x8000000000000000⟩

/-- One zero is equal to itself by way of the other. A payload with both of them under one name is equal
to the payload the other way round. A reading that holds NaN differs from itself. -/
theorem equality_partial_equivalence_zeros :
    let reading : EnumType :=
      ⟨⟨0⟩, "Reading", [⟨"Of", .positional [.scalar .float]⟩], ⟨[("Of", 0)]⟩⟩
    let broken : EnumValue := ⟨reading, ⟨0, Nat.zero_lt_one⟩, [.float ⟨0x7ff8000000000001⟩]⟩
    (Value.float ⟨0⟩ == .float ⟨0⟩) = true ∧
      (Payload.named [("x", .float ⟨0⟩), ("x", .float negativeZero)]
        == .named [("x", .float negativeZero), ("x", .float ⟨0⟩)]) = true ∧
      (broken == broken) = false := by
  intro reading broken
  obtain ⟨⟨-, htrans⟩, -, -, -, hself, hperm⟩ := equality_partial_equivalence
  have hzeros : (Value.float ⟨0⟩ == .float negativeZero) = true ∧
      (Value.float negativeZero == .float ⟨0⟩) = true := by
    decide
  have hswap : [("x", Value.float negativeZero), ("x", .float ⟨0⟩)].Perm
      [("x", .float ⟨0⟩), ("x", .float negativeZero)] :=
    .swap _ _ _
  obtain ⟨-, hright⟩ := hperm (.named [("x", .float ⟨0⟩), ("x", .float negativeZero)]) _ _ hswap
  refine ⟨htrans _ _ _ hzeros.1 hzeros.2, ?_, ?_⟩
  · rw [← hright]
    decide
  · rw [← Bool.not_eq_true, hself broken]
    intro hfloats
    exact absurd (hfloats _ List.mem_cons_self) (by decide)

end TaggedUnion
