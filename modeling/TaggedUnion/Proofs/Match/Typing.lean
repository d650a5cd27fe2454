import TaggedUnion.Proofs.Session.Invariant

/-!
# What bodies can read

The body of an arm reads names, each as one kind of value. Whether a read succeeds does not depend on
the value that is matched: the head of the arm and the matched type say which names there are, and of
which type each is.

* `Binder.names`, `Binder.context`: the names that a binder introduces, and the types declared for
  them. `Binder.BindsField` says of one name which field it stands for.
* `Binder.map_type_of_binds`: what is bound has the names and types of the context.
* `Getter`, `Getter.check`: the typed reads, and what comes of one, as far as types tell.
* `Getter.map_read`: that is what comes of it. `Getter.read_of_get?` says what it gives.
* `World.Reachable.bindings_type_sound`: the reads of a body succeed or fail as its arm's head says.
-/

namespace TaggedUnion

/-! ## Names and their types -/

namespace Binder

/-- The names that a binder introduces, in their order. -/
def names : Binder → List String
  | .ignore => []
  | .whole name => [name].filter (· != placeholder)
  | .positional names => names.filter (· != placeholder)
  | .named pairs => (pairs.map (·.2)).filter (· != placeholder)

/-- The names that a binder introduces, each with the type of what it stands for: the matched type, or
the one that the shape declares for the field. -/
def context (type : EnumType) : Binder → Option Shape → List (String × FieldType)
  | .whole name, _ => [(name, .enum type.ref)].filter (·.1 != placeholder)
  | .positional names, some (.positional types) => (names.zip types).filter (·.1 != placeholder)
  | .named pairs, some (.named declared) =>
    (pairs.filterMap fun pair =>
      (declared.find? (·.name == pair.1)).map fun field => (pair.2, field.type)).filter
        (·.1 != placeholder)
  | _, _ => []

/-- The binder gives the name to a field that the shape declares with the type. -/
def BindsField (name : String) (type : FieldType) : Binder → Shape → Prop
  | .positional names, .positional types =>
    name ≠ placeholder ∧ ∃ i : Nat, names[i]? = some name ∧ types[i]? = some type
  | .named pairs, .named declared =>
    name ≠ placeholder ∧ ∃ field ∈ declared, (field.name, name) ∈ pairs ∧ field.type = type
  | _, _ => False

end Binder

/-- Two lists that go along with a third go along with each other. -/
theorem map_eq_of_forall₂ {α β γ : Type} {R : α → γ → Prop} {S : β → γ → Prop} {f : α → β}
    {as : List α} {bs : List β} {cs : List γ} (h : List.Forall₂ R as cs)
    (h' : List.Forall₂ S bs cs) (hsame : ∀ a b c, R a c → S b c → f a = b) : as.map f = bs := by
  induction h generalizing bs with
  | nil =>
    rw [List.forall₂_nil_right_iff.mp h']
    rfl
  | cons hR _ ih =>
    obtain ⟨b, tail, hS, htail, rfl⟩ := List.forall₂_cons_right_iff.mp h'
    rw [List.map_cons, hsame _ _ _ hR hS, ih htail]

theorem exists_mem_of_forall₂ {α β : Type} {R : α → β → Prop} {as : List α} {bs : List β}
    (h : List.Forall₂ R as bs) {b : β} (hb : b ∈ bs) : ∃ a ∈ as, R a b := by
  obtain ⟨i, hi, rfl⟩ := List.mem_iff_getElem.mp hb
  have hi' : i < as.length := by
    rw [h.length_eq]
    exact hi
  exact ⟨as[i], List.getElem_mem hi', h.get hi' hi⟩

theorem forall₂_filterMap {α β : Type} {f : α → Option β} {xs : List α}
    (h : ∀ x ∈ xs, ∃ y, f x = some y) :
    List.Forall₂ (fun y x => f x = some y) (xs.filterMap f) xs := by
  induction xs with
  | nil => exact .nil
  | cons x xs ih =>
    obtain ⟨y, hy⟩ := h x List.mem_cons_self
    rw [List.filterMap_cons_some hy]
    exact .cons hy (ih fun z hz => h z (List.mem_cons_of_mem _ hz))

namespace Binder

variable {shape : Option Shape} {b : Binder} {names : List String}
  {types : List FieldType} {pairs : List (String × String)} {declared : List Field}

/-- Positional binders take their types from the declared positions. -/
theorem context_positional (type : EnumType) (hlen : names.length = types.length) :
    List.Forall₂ (fun entry place => entry.1 = place.1 ∧ types[place.2]? = some entry.2)
      ((positional names).context type (some (.positional types)))
      (names.zipIdx.filter (·.1 != placeholder)) := by
  have hall : List.Forall₂ (fun entry place => entry.1 = place.1 ∧ types[place.2]? = some entry.2)
      (names.zip types) names.zipIdx := by
    rw [List.forall₂_iff_get]
    refine ⟨by simp [hlen], ?_⟩
    intro i hi hi'
    simp
  -- leaving out the placeholder leaves out the same entries and places
  refine List.rel_filter ?_ hall
  intro entry place h
  show (entry.1 != placeholder) = true ↔ (place.1 != placeholder) = true
  rw [h.1]

/-- Named binders take their types from the declared fields of those names. -/
theorem context_named (type : EnumType) (hnodup : (declared.map (·.name)).Nodup)
    (hdeclared : ∀ pair ∈ pairs, pair.1 ∈ declared.map (·.name)) :
    List.Forall₂
      (fun entry pair => entry.1 = pair.2 ∧
        ∀ field ∈ declared, field.name = pair.1 → field.type = entry.2)
      ((named pairs).context type (some (.named declared)))
      (pairs.filter (·.2 != placeholder)) := by
  have hfound : ∀ pair ∈ pairs, ∃ entry,
      (declared.find? (·.name == pair.1)).map (fun f => (pair.2, f.type)) = some entry := by
    intro pair hpair
    obtain ⟨field, hfield, hname⟩ := List.mem_map.mp (hdeclared pair hpair)
    refine ⟨(pair.2, field.type), ?_⟩
    rw [← hname, find?_eq_some_of_nodup hnodup hfield]
    rfl
  have hall := (forall₂_filterMap hfound).imp (S := fun entry pair => entry.1 = pair.2 ∧
      ∀ field ∈ declared, field.name = pair.1 → field.type = entry.2) ?_
  · refine List.rel_filter ?_ hall
    intro entry pair h
    show (entry.1 != placeholder) = true ↔ (pair.2 != placeholder) = true
    rw [h.1]
  · intro entry pair h
    obtain ⟨f, hf, rfl⟩ := Option.map_eq_some_iff.mp h
    refine ⟨rfl, ?_⟩
    intro field hfield hname
    rw [← hname, find?_eq_some_of_nodup hnodup hfield] at hf
    rw [Option.some.inj hf]

/-- The context has the names that the binder introduces, and each of them once. -/
theorem map_fst_context (type : EnumType) (hshape : ∀ s, shape = some s → s.WellFormed)
    (hfits : b.Fits shape) :
    (b.context type shape).map (·.1) = b.names ∧ b.names.Nodup := by
  rcases fits_cases hfits with rfl | ⟨name, rfl⟩ | ⟨names, types, rfl, rfl, hlen, hnodup⟩ |
    ⟨pairs, declared, rfl, rfl, hperm, hnodup⟩
  · exact ⟨rfl, .nil⟩
  · have hnodup : ([name].filter (· != placeholder)).Nodup := (List.nodup_singleton name).filter _
    exact ⟨filter_map_fst (· != placeholder) _, hnodup⟩
  · refine ⟨?_, hnodup⟩
    rw [map_eq_map_of_forall₂ (context_positional type hlen) fun _ _ h => h.1,
      filter_map_fst (· != placeholder), List.zipIdx_map_fst]
    rfl
  · refine ⟨?_, hnodup⟩
    have hcontext := context_named type (hshape _ rfl).2 fun pair hpair =>
      hperm.subset (List.mem_map_of_mem hpair)
    rw [map_eq_map_of_forall₂ hcontext fun _ _ h => h.1]
    show _ = (pairs.map (·.2)).filter (· != placeholder)
    rw [List.filter_map]
    rfl

/-- A name that is given to a field is in the context, with the type of the field. The cases are the kinds
of binder that fit a shape. -/
theorem mem_context_of_bindsField (type : EnumType) {s : Shape} (hs : s.WellFormed)
    (hfits : b.Fits (some s)) {name : String} {D : FieldType} (h : b.BindsField name D s) :
    (name, D) ∈ b.context type (some s) := by
  rcases fits_cases hfits with rfl | ⟨_, rfl⟩ | ⟨names, types, rfl, hshape, hlen, -⟩ |
    ⟨pairs, declared, rfl, hshape, hperm, -⟩
  · cases h
  · cases h
  · cases hshape
    obtain ⟨hname, i, hi, htype⟩ := h
    have hmem : (name, i) ∈ names.zipIdx.filter (·.1 != placeholder) := by
      rw [List.mem_filter, List.mem_zipIdx_iff_getElem?]
      exact ⟨hi, bne_iff_ne.mpr hname⟩
    obtain ⟨entry, hentry, rfl, hfound⟩ :=
      exists_mem_of_forall₂ (context_positional type hlen) hmem
    rw [htype] at hfound
    cases hfound
    exact hentry
  · cases hshape
    obtain ⟨hname, field, hfield, hpair, rfl⟩ := h
    have hmem : (field.name, name) ∈ pairs.filter (·.2 != placeholder) :=
      List.mem_filter.mpr ⟨hpair, bne_iff_ne.mpr hname⟩
    have hcontext := context_named type hs.2 fun pair hpair =>
      hperm.subset (List.mem_map_of_mem hpair)
    obtain ⟨entry, hentry, rfl, htypes⟩ := exists_mem_of_forall₂ hcontext hmem
    rw [htypes field hfield rfl]
    exact hentry

/-- What a binder asks for on a well-formed value has the names and the types of the context. The
binder fits the shape of the value's variant, or is that of a wildcard. -/
theorem map_type_of_binds {r : Registry} {v : EnumValue} (hv : v.WellFormed r)
    (hshape : ∀ s, shape = some s → s = v.variant.shape ∧ s.WellFormed) (hfits : b.Fits shape)
    {entries : List (String × Value)} (hbinds : b.Binds v entries) :
    entries.map (fun entry => (entry.1, entry.2.type)) = b.context v.type shape := by
  -- a stored field has the type that is declared for its position
  have hfield : ∀ {i : Nat} {x : Value} {D : FieldType}, v.fields[i]? = some x →
      v.variant.shape.fieldType? i = some D → x.type = D := by
    intro i x D hx hD
    rw [← hv.type_getElem? i, hx] at hD
    exact Option.some.inj hD
  rcases fits_cases hfits with rfl | ⟨name, rfl⟩ | ⟨names, types, rfl, rfl, hlen, -⟩ |
    ⟨pairs, declared, rfl, rfl, hperm, -⟩
  · have hnil : entries = [] := hbinds
    rw [hnil]
    rfl
  · have hwhole : entries = if name = placeholder then [] else [(name, .enum v)] := hbinds
    rw [hwhole]
    by_cases hname : name = placeholder
    · simp [context, hname]
    · simp [context, hname, Value.type]
  · refine map_eq_of_forall₂ hbinds (context_positional v.type hlen) ?_
    intro entry typed place hentry htyped
    have htype : v.variant.shape.fieldType? place.2 = some typed.2 := by
      rw [← (hshape _ rfl).1]
      exact htyped.2
    rw [hentry.1, ← htyped.1, hfield hentry.2 htype]
  · obtain ⟨hvshape, hwf⟩ := hshape _ rfl
    have hcontext := context_named v.type hwf.2 fun pair hpair =>
      hperm.subset (List.mem_map_of_mem hpair)
    refine map_eq_of_forall₂ hbinds hcontext ?_
    -- the pair's field stands at one place, and is stored there
    rintro entry typed pair ⟨hname, declared', i, hdeclared, hi, hx⟩ ⟨hname', htyped⟩
    rw [← hvshape] at hdeclared
    cases hdeclared
    obtain ⟨f, hf, hfname⟩ := Option.map_eq_some_iff.mp hi
    have htype : v.variant.shape.fieldType? i = some f.type := by
      rw [← hvshape, Shape.fieldType?, Shape.fieldTypes, List.getElem?_map, hf]
      rfl
    rw [hname, ← hname', hfield hx htype, htyped f (List.mem_of_getElem? hf) hfname]

/-- What is bound has the names that the binder introduces, each once, so that a name finds its entry. -/
theorem map_fst_of_binds {r : Registry} {v : EnumValue} (hv : v.WellFormed r)
    (hshape : ∀ s, shape = some s → s = v.variant.shape ∧ s.WellFormed) (hfits : b.Fits shape)
    {entries : List (String × Value)} (hbinds : b.Binds v entries) :
    entries.map (·.1) = b.names ∧ (entries.map (·.1)).Nodup := by
  obtain ⟨hnames, hnodup⟩ := map_fst_context v.type (fun s hs => (hshape s hs).2) hfits
  rw [← map_type_of_binds hv hshape hfits hbinds, List.map_map] at hnames
  have hentries : entries.map (·.1) = b.names := hnames
  rw [hentries]
  exact ⟨rfl, hnodup⟩

end Binder

/-! ## Reads -/

/-- The reads of a name as one kind of value. -/
inductive Getter
  | int
  | byte
  | float
  | bool
  | text
  | enum

namespace Getter

/-- What a read gives. -/
def Result : Getter → Type
  | .int => Int64
  | .byte => UInt8
  | .float => Binary64
  | .bool => Bool
  | .text => String
  | .enum => EnumValue

/-- The word for the kind of value in messages. -/
def word : Getter → String
  | .int => "int"
  | .byte => "byte"
  | .float => "float"
  | .bool => "bool"
  | .text => "text"
  | .enum => "variant"

/-- The value that holds what a read gives. -/
def toValue : (g : Getter) → g.Result → Value
  | .int, n => .int n
  | .byte, n => .byte n
  | .float, x => .float x
  | .bool, x => .bool x
  | .text, s => .text s
  | .enum, v => .enum v

/-- What a value holds, if it is of the kind that is read. -/
def ofValue : (g : Getter) → Value → Option g.Result
  | .int => Value.int?
  | .byte => Value.byte?
  | .float => Value.float?
  | .bool => Value.bool?
  | .text => Value.text?
  | .enum => Value.enum?

def read (b : Bindings) (name : String) : (g : Getter) → Except MatchError g.Result
  | .int => b.int name
  | .byte => b.byte name
  | .float => b.float name
  | .bool => b.bool name
  | .text => b.text name
  | .enum => b.enum name

/-- The types whose values can be read in this way. -/
def accepts : Getter → FieldType → Bool
  | .int, .scalar .int => true
  | .byte, .scalar .byte => true
  | .float, .scalar .float => true
  | .bool, .scalar .bool => true
  | .text, .scalar .text => true
  | .enum, .enum _ => true
  | _, _ => false

/-- What comes of reading a name of a known type, or one that is not bound. -/
def check (name : String) (g : Getter) : Option FieldType → Except MatchError Unit
  | none => .error (.unboundName name)
  | some type => if g.accepts type then .ok () else .error (.bindingType name g.word type)

/-- A value holds what a read gives exactly if it is the value made of that. -/
theorem ofValue_eq_some_iff {g : Getter} {x : Value} {y : g.Result} :
    g.ofValue x = some y ↔ x = g.toValue y := by
  constructor
  · intro h
    cases g <;> cases x <;> cases h <;> rfl
  · rintro rfl
    cases g <;> rfl

/-- The reads differ in the kind of value that they are for, and in the word for it. -/
theorem read_eq_typed (b : Bindings) (name : String) (g : Getter) :
    g.read b name = b.typed name g.word g.ofValue := by
  cases g <;> rfl

/-- A read of a name that is bound gives what the value holds, or reports the type of the value. -/
theorem read_of_get? {b : Bindings} {name : String} {x : Value} (h : b.get? name = some x)
    (g : Getter) :
    g.read b name = (g.ofValue x).elim (.error (.bindingType name g.word x.type)) .ok := by
  rw [read_eq_typed]
  unfold Bindings.typed Bindings.value
  rw [h]
  dsimp only [bind, Except.bind]
  cases g.ofValue x <;> rfl

/-- A read of a name that is not bound says so. -/
theorem read_of_get?_eq_none {b : Bindings} {name : String} (h : b.get? name = none) (g : Getter) :
    g.read b name = .error (.unboundName name) := by
  rw [read_eq_typed]
  unfold Bindings.typed Bindings.value
  rw [h]
  rfl

/-- Types tell whether a read succeeds, and how it fails. -/
theorem map_read (b : Bindings) (name : String) (g : Getter) :
    (fun _ => ()) <$> g.read b name = g.check name ((b.get? name).map (·.type)) := by
  cases hget : b.get? name with
  | none =>
    rw [read_of_get?_eq_none hget]
    rfl
  | some x =>
    have hkind : (g.ofValue x).isSome = g.accepts x.type := by
      cases g <;> cases x <;> rfl
    rw [read_of_get? hget, Option.map_some, check, ← hkind]
    cases g.ofValue x <;> rfl

end Getter

/-- The types of what is bound settle the type of what a name is bound to. -/
theorem Bindings.type_get? (b : Bindings) (name : String) :
    (b.get? name).map (·.type)
      = (b.entries.map fun entry => (entry.1, entry.2.type)).lookup name := by
  unfold get?
  induction b.entries with
  | nil => rfl
  | cons entry rest ih =>
    rw [List.map_cons, List.lookup_cons, List.lookup_cons]
    cases name == entry.1 with
    | true => rfl
    | false => exact ih

/-! ## The body of an arm -/

namespace ArmHead

/-- The names that an arm introduces and their types. -/
def context (type : EnumType) (h : ArmHead) : List (String × FieldType) :=
  h.binder.context type (h.shape? type)

/-- The arm gives the name to a field of the variant that it names, a field declared with the type
`D`. -/
def BindsField (type : EnumType) (h : ArmHead) (name : String) (D : FieldType) : Prop :=
  ∃ s, h.shape? type = some s ∧ h.binder.BindsField name D s

variable {type : EnumType} {h : ArmHead} {name : String}

/-- A name that stands for a field has the type declared for the field. -/
theorem lookup_context_of_bindsField (htype : type.WellFormed)
    (hfits : h.binder.Fits (h.shape? type)) {D : FieldType} (hbinds : h.BindsField type name D) :
    (h.context type).lookup name = some D := by
  obtain ⟨s, hs, hfield⟩ := hbinds
  obtain ⟨hnames, hnodup⟩ := Binder.map_fst_context type
    (fun _ => Coverage.wellFormed_of_shape? htype) hfits
  rw [← hnames] at hnodup
  apply (lookup_eq_some_iff_mem hnodup).mpr
  rw [hs] at hfits ⊢
  exact Binder.mem_context_of_bindsField type (Coverage.wellFormed_of_shape? htype hs) hfits hfield

/-- The names of a move may come in any order, and the one that is left out has no type. -/
example : (context Registry.message ⟨.variant "Move", .named [("y", "up"), ("x", "_")]⟩)
    = [("up", .scalar .int)] := rfl

/-- A name that the arm does not introduce has no type. -/
theorem lookup_context_of_not_mem (htype : type.WellFormed)
    (hfits : h.binder.Fits (h.shape? type)) (hname : name ∉ h.binder.names) :
    (h.context type).lookup name = none := by
  obtain ⟨hnames, -⟩ := Binder.map_fst_context type
    (fun _ => Coverage.wellFormed_of_shape? htype) hfits
  rw [← hnames] at hname
  exact lookup_eq_none_iff_not_mem.mpr hname

end ArmHead

namespace Plan

variable {R : Type} {r : Registry} {v : EnumValue} {arms : List (Arm R)} {p : Plan} {i : Nat}
  {arm : Arm R}

/-- The arm that a value reaches has a binder that fits, and fits the shape of the value, unless the arm is
a wildcard. -/
theorem fits_of_armFor? (htype : v.type.WellFormed)
    (hp : compile v.type (arms.map (·.head)) = .ok p) (harm : arms[i]? = some arm)
    (hreach : p.armFor? v.tag = some i) :
    arm.head.binder.Fits (arm.head.shape? v.type) ∧
      ∀ s, arm.head.shape? v.type = some s → s = v.variant.shape ∧ s.WellFormed := by
  have hcovers : arm.head.covers v.variantName = true := by
    rw [armFor?_tag htype hp] at hreach
    obtain ⟨hlt, hcovers, -⟩ := List.findIdx?_eq_some_iff_getElem.mp hreach
    rw [List.getElem?_eq_getElem hlt] at harm
    cases harm
    exact hcovers
  refine ⟨(accepts_of_compile htype hp).fits _ (List.mem_map_of_mem (List.mem_of_getElem? harm)), ?_⟩
  intro s hs
  exact ⟨ArmHead.shape?_of_covers htype.names_nodup hcovers hs,
    Coverage.wellFormed_of_shape? htype hs⟩

/-- The arm that a value reaches is run on bindings of the names and types of its context. -/
theorem exists_typed_run (hr : r.Consistent) (hv : v.WellFormed r)
    (hp : compile v.type (arms.map (·.head)) = .ok p) (harm : arms[i]? = some arm)
    (hreach : p.armFor? v.tag = some i) :
    arm.head.binder.Fits (arm.head.shape? v.type) ∧
      ∃ b, p.bind i v = .ok b ∧ p.run v arms = .ok (arm.body b) ∧
        b.entries.map (fun entry => (entry.1, entry.2.type)) = arm.head.context v.type ∧
        ∀ entry ∈ b.entries, entry.2.WellFormed r := by
  obtain ⟨j, arm', entries, hentry, harm', -, hbind, hbinds, hrun⟩ := exists_run hr hv hp
  rw [hreach] at hentry
  cases hentry
  rw [harm] at harm'
  cases harm'
  obtain ⟨hfits, hshape⟩ := fits_of_armFor? (hr.wellFormed _ hv.registered) hp harm hreach
  exact ⟨hfits, _, hbind, hrun, Binder.map_type_of_binds hv hshape hfits hbinds,
    EnumValue.value_of_binds hv hbinds⟩

end Plan

/-- Bindings are type-sound. What is bound for an instance that reaches an arm has the names and types
of the context of the arm, so that the head of the arm and the type alone settle what comes of each
read. A name that stands for a field holds a value of the type declared for it, and reads as the kind of
value that this type has; to read it as anything else reports the name, the kind that was asked for and
the declared type. A name that the arm does not introduce is reported as unbound by every read. -/
theorem World.Reachable.bindings_type_sound {R : Type} {w : World} (hw : w.Reachable)
    {v : EnumValue} (hv : v ∈ w.held) {arms : List (Arm R)} {p : Plan}
    (hp : Plan.compile v.type (arms.map (·.head)) = .ok p) {i : Nat} {arm : Arm R}
    (harm : arms[i]? = some arm) (hreach : p.armFor? v.tag = some i) :
    ∃ b, p.bind i v = .ok b ∧ p.run v arms = .ok (arm.body b) ∧
      b.entries.map (fun entry => (entry.1, entry.2.type)) = arm.head.context v.type ∧
      (∀ (g : Getter) name, (fun _ => ()) <$> g.read b name
        = g.check name ((arm.head.context v.type).lookup name)) ∧
      (∀ name D, arm.head.BindsField v.type name D →
        (∃ x, b.get? name = some x ∧ x.type = D) ∧
        (∀ t ∈ w.session.registry.types, D = .enum t.ref →
          ∃ u, b.enum name = .ok u ∧ u.type = t) ∧
        ∀ g : Getter, (g.accepts D = true → ∃ a, g.read b name = .ok a) ∧
          (g.accepts D = false → g.read b name = .error (.bindingType name g.word D))) ∧
      ∀ name, name ∉ arm.head.binder.names →
        b.get? name = none ∧ b.value name = .error (.unboundName name) ∧
          ∀ g : Getter, g.read b name = .error (.unboundName name) := by
  have hcon : w.session.registry.Consistent := hw.sound.registry.consistent
  have hwf : v.WellFormed w.session.registry := hw.sound.held v hv
  have htype : v.type.WellFormed := hcon.wellFormed _ hwf.registered
  obtain ⟨hfits, b, hbind, hrun, hcontext, hvalues⟩ :=
    Plan.exists_typed_run hcon hwf hp harm hreach
  have htypes : ∀ name, (b.get? name).map (·.type) = (arm.head.context v.type).lookup name := by
    intro name
    rw [b.type_get?, hcontext]
  have hreads : ∀ (g : Getter) name, (fun _ => ()) <$> g.read b name
      = g.check name ((arm.head.context v.type).lookup name) := by
    intro g name
    rw [Getter.map_read, htypes]
  refine ⟨b, hbind, hrun, hcontext, hreads, ?_, ?_⟩
  · intro name D hfield
    have hlookup := ArmHead.lookup_context_of_bindsField htype hfits hfield
    obtain ⟨x, hx, hxtype⟩ := Option.map_eq_some_iff.mp ((htypes name).trans hlookup)
    refine ⟨⟨x, hx, hxtype⟩, ?_, ?_⟩
    · rintro t ht rfl
      -- what is bound is an instance of a registered type, and its identity is the declared one
      obtain ⟨u, rfl⟩ : ∃ u, x = .enum u := by
        cases x <;> first | exact ⟨_, rfl⟩ | cases hxtype
      have hu : u.WellFormed w.session.registry :=
        hvalues _ (mem_of_lookup_eq_some hx) u rfl
      have hid : u.type.id = t.id := congrArg TypeRef.id (FieldType.enum.inj hxtype)
      refine ⟨u, ?_, hcon.eq_of_id_eq hu.registered ht hid⟩
      unfold Bindings.enum Bindings.typed Bindings.value
      rw [hx]
      rfl
    · intro g
      have hread := hreads g name
      rw [hlookup, Getter.check] at hread
      constructor
      · intro haccepts
        rw [if_pos haccepts] at hread
        obtain ⟨a, ha, -⟩ := map_eq_ok_iff.mp hread
        exact ⟨a, ha⟩
      · intro hrejects
        rw [hrejects] at hread
        exact map_eq_error_iff.mp hread
  · intro name hname
    have hlookup := ArmHead.lookup_context_of_not_mem htype hfits hname
    have hget : b.get? name = none := Option.map_eq_none_iff.mp ((htypes name).trans hlookup)
    refine ⟨hget, ?_, ?_⟩
    · unfold Bindings.value
      rw [hget]
    · intro g
      apply map_eq_error_iff.mp
      rw [hreads, hlookup]
      rfl

/-- The text of the message can be read as a text and not as a number, and the placeholder is no name
to read. -/
theorem World.Reachable.bindings_type_sound_messages :
    ∃ b, Plan.bind ⟨Registry.message, [1, 1, 0], [.fields [("text", 0)], .nothing]⟩ 0 written
        = .ok b ∧
      (∃ a, Getter.text.read b "text" = .ok a) ∧
      Getter.int.read b "text" = .error (.bindingType "text" "int" (.scalar .text)) ∧
      Getter.text.read b placeholder = .error (.unboundName placeholder) := by
  have hheld : written ∈ messages.held := by simp [messages]
  have hplan : Plan.compile written.type
      ([Arm.on "Write" (.positional ["text"]) id, Arm.otherwise .ignore id].map (·.head))
      = .ok ⟨Registry.message, [1, 1, 0], [.fields [("text", 0)], .nothing]⟩ := rfl
  obtain ⟨b, hbind, -, -, -, hbound, hunbound⟩ :=
    reachable_messages.bindings_type_sound hheld hplan (i := 0) rfl rfl
  have hfield : (Arm.on "Write" (.positional ["text"]) id).head.BindsField written.type "text"
      (.scalar .text) :=
    ⟨.positional [.scalar .text], rfl, by decide, 0, rfl, rfl⟩
  obtain ⟨-, -, hreads⟩ := hbound _ _ hfield
  obtain ⟨-, -, hplaceholder⟩ := hunbound placeholder (by decide)
  exact ⟨b, hbind, (hreads .text).1 rfl, (hreads .int).2 rfl, hplaceholder .text⟩

end TaggedUnion
