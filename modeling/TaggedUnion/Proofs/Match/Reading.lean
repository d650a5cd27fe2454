import TaggedUnion.Proofs.Match.Completion
import TaggedUnion.Proofs.Match.Rewriting
import TaggedUnion.Proofs.Match.Typing
import TaggedUnion.Proofs.Value.RoundTrip

/-!
# Ways of reading

An instance can be read as a payload, as the list of its stored fields, or by the binder of an arm. Each
way finds a field on its own: a payload pairs the fields with their names, a client counts positions, and
a binder has settled its places when the arm was compiled. Here is that they all find the same.

* `EnumValue.checkVariant_of_unknown`, `EnumValue.checkVariant_of_other`: how reading fails.
* `EnumValue.ReadingsAgree`, `EnumValue.BindsRead`: that a payload, the stored fields and what a binder
  has bound agree.
* `EnumValue.WellFormed.field?_payload_eq_some_iff`: a payload has under a name what the instance holds.
* `World.Reachable.readings_agree`: reading fails alike, and what is read is the same.
-/

namespace TaggedUnion

namespace EnumValue

variable {v : EnumValue} {variant : String}

/-! ## Failing -/

/-- A name that is no variant of the type is reported as such. -/
theorem checkVariant_of_unknown (htype : v.type.WellFormed)
    (hunknown : variant ∉ v.type.variantNames) :
    v.checkVariant variant = .error (.unknownVariant v.type.name variant) := by
  unfold checkVariant
  rw [(EnumType.tag?_eq_none_iff htype).mpr hunknown]

/-- The name of a variant that is not held is reported with the variant that is. -/
theorem checkVariant_of_other (htype : v.type.WellFormed)
    (hknown : variant ∈ v.type.variantNames) (hother : variant ≠ v.variantName) :
    v.checkVariant variant = .error (.variantMismatch v.type.name variant v.variantName) := by
  unfold checkVariant
  cases htag : v.type.tag? variant with
  | none => exact absurd hknown ((EnumType.tag?_eq_none_iff htype).mp htag)
  | some tag =>
    -- two names of one tag would be one name
    have hne : tag ≠ v.tag.val := by
      rintro rfl
      exact hother ((EnumType.tag?_eq_some_iff htype).mp htag).symm
    dsimp only
    rw [if_neg hne]

theorem extract_eq_error_iff {e : ValueError} :
    v.extract variant = .error e ↔ v.checkVariant variant = .error e :=
  map_eq_error_iff

theorem extractFields_eq_error_iff {e : ValueError} :
    v.extractFields variant = .error e ↔ v.checkVariant variant = .error e :=
  map_eq_error_iff

theorem is_iff : v.is variant = true ↔ v.variantName = variant :=
  beq_iff_eq

/-! ## Agreeing -/

/-- The field of this name is read as `x`: by its name from the payload, and from the stored fields at the
position that is declared for the name. -/
def ReadsField (v : EnumValue) (payload : Payload) (stored : List Value) (name : String) (x : Value) :
    Prop :=
  payload.field? name = some x ∧
    ∃ i, v.variant.shape.fieldIndex? name = some i ∧ stored[i]? = some x

/-- The payload and the stored fields say the same of the instance. -/
structure ReadingsAgree (v : EnumValue) (payload : Payload) (stored : List Value) : Prop where
  /-- No field that is declared is left out, and no other is stored. -/
  length : stored.length = v.variant.shape.arity
  values : payload.values = stored
  position : ∀ types, v.variant.shape = .positional types → ∀ i : Nat, payload.get? i = stored[i]?
  declared : ∀ fields, v.variant.shape = .named fields → ∀ field ∈ fields,
    ∃ x, v.ReadsField payload stored field.name x
  undeclared : ∀ name,
    (∀ fields, v.variant.shape = .named fields → name ∉ fields.map (·.name)) →
      payload.field? name = none

/-- What the binder has bound is what can be read: under a name that is given to a position there is the
field at this position, and under one that is given to a field there is the field. -/
structure BindsRead (v : EnumValue) (payload : Payload) (stored : List Value) (binder : Binder)
    (b : Bindings) : Prop where
  position : ∀ names, binder = .positional names → ∀ (i : Nat) name, names[i]? = some name →
    name ≠ placeholder →
      ∃ x, b.get? name = some x ∧ payload.get? i = some x ∧ stored[i]? = some x
  field : ∀ pairs, binder = .named pairs → ∀ field name, (field, name) ∈ pairs →
    name ≠ placeholder → ∃ x, b.get? name = some x ∧ v.ReadsField payload stored field x

section Stored

variable {r : Registry} {name : String} {x : Value}

/-- Pairing the stored fields with the declared names puts each field under its own name. -/
theorem WellFormed.field?_payload_eq_some_iff (hv : v.WellFormed r)
    (hshape : v.variant.shape.WellFormed) : v.payload.field? name = some x ↔ v.Holds name x := by
  have hstores := hv.stores
  rw [payload_eq]
  unfold Holds
  cases hs : v.variant.shape with
  | unit => simp [Shape.payloadOf, Payload.field?]
  | positional types => simp [Shape.payloadOf, Payload.field?]
  | named declared =>
    rw [hs] at hshape hstores
    -- the pairs have the declared names, which are distinct, so a look-up finds the pair of the name
    have hkeys := Shape.map_fst_zip_names (Shape.stores_named_iff.mp hstores).1
    have hnodup : (((declared.map (·.name)).zip v.fields).map (·.1)).Nodup := by
      rw [hkeys]
      exact hshape.2
    show ((declared.map (·.name)).zip v.fields).lookup name = some x ↔ _
    rw [lookup_eq_some_iff_mem hnodup, List.mem_iff_getElem?]
    simp only [List.getElem?_zip_eq_some, List.getElem?_map, Shape.named.injEq, exists_and_left,
      exists_eq_left']

/-- What an instance holds under a name is what any client reads under it. -/
theorem WellFormed.readsField_of_holds (hv : v.WellFormed r) (hshape : v.variant.shape.WellFormed)
    (hholds : v.Holds name x) : v.ReadsField v.payload v.fields name x := by
  refine ⟨(hv.field?_payload_eq_some_iff hshape).mpr hholds, ?_⟩
  obtain ⟨declared, i, hs, hi, hx⟩ := hholds
  rw [hs] at hshape ⊢
  exact ⟨i, (Shape.fieldIndex?_eq_some_iff hshape.2).mpr hi, hx⟩

theorem WellFormed.exists_holds (hv : v.WellFormed r) {declared : List Field}
    (hs : v.variant.shape = .named declared) {field : Field} (hfield : field ∈ declared) :
    ∃ x, v.Holds field.name x := by
  have hlen : v.fields.length = declared.length := by
    rw [hv.length_fields, hs]
    exact List.length_map _
  obtain ⟨i, hi⟩ := List.mem_iff_getElem?.mp hfield
  have hlt : i < v.fields.length := by
    rw [hlen]
    exact (List.getElem?_eq_some_iff.mp hi).1
  exact ⟨v.fields[i], declared, i, hs, by rw [hi]; rfl, List.getElem?_eq_getElem hlt⟩

/-- The payload of a well-formed instance and its stored fields say the same. -/
theorem WellFormed.readingsAgree (hv : v.WellFormed r) (hshape : v.variant.shape.WellFormed) :
    v.ReadingsAgree v.payload v.fields where
  length := hv.length_fields
  values := hv.payload_values
  position := by
    intro types hs i
    rw [payload_eq, hs]
    rfl
  declared := by
    intro fields hs field hfield
    obtain ⟨x, hx⟩ := hv.exists_holds hs hfield
    exact ⟨x, hv.readsField_of_holds hshape hx⟩
  undeclared := by
    intro name hundeclared
    rw [Option.eq_none_iff_forall_ne_some]
    intro x hx
    obtain ⟨declared, i, hs, hi, -⟩ := (hv.field?_payload_eq_some_iff hshape).mp hx
    obtain ⟨field, hfield, rfl⟩ := Option.map_eq_some_iff.mp hi
    exact hundeclared declared hs (List.mem_map_of_mem (List.mem_of_getElem? hfield))

end Stored

end EnumValue

/-! ## Binding -/

namespace Binder

variable {r : Registry} {v : EnumValue} {shape : Option Shape} {binder : Binder}
  {entries : List (String × Value)}

/-- The entries that a fitting binder asks for are those that can be read. -/
theorem bindsRead_of_binds (hv : v.WellFormed r) (hwf : v.variant.shape.WellFormed)
    (hshape : ∀ s, shape = some s → s = v.variant.shape ∧ s.WellFormed) (hfits : binder.Fits shape)
    (hbinds : binder.Binds v entries) :
    v.BindsRead v.payload v.fields binder ⟨v.variantName, entries⟩ := by
  obtain ⟨-, hnodup⟩ := map_fst_of_binds hv hshape hfits hbinds
  have hget : ∀ {entry : String × Value}, entry ∈ entries →
      (Bindings.mk v.variantName entries).get? entry.1 = some entry.2 :=
    fun hentry => (lookup_eq_some_iff_mem hnodup).mpr hentry
  constructor
  · rintro names rfl i name hname hbound
    -- names by position only fit a variant with positions
    obtain ⟨types, hs⟩ : ∃ types, shape = some (.positional types) := by
      rcases fits_cases hfits with h | ⟨_, h⟩ | ⟨_, types, -, h, -⟩ | ⟨_, _, h, -⟩
      · cases h
      · cases h
      · exact ⟨types, h⟩
      · cases h
    have hplace : (name, i) ∈ names.zipIdx.filter (·.1 != placeholder) := by
      rw [List.mem_filter, List.mem_zipIdx_iff_getElem?]
      exact ⟨hname, bne_iff_ne.mpr hbound⟩
    obtain ⟨entry, hentry, rfl, hstored⟩ := exists_mem_of_forall₂ hbinds hplace
    refine ⟨entry.2, hget hentry, ?_, hstored⟩
    rw [(hv.readingsAgree hwf).position types (hshape _ hs).1.symm]
    exact hstored
  · rintro pairs rfl field name hpair hbound
    have hmem : (field, name) ∈ pairs.filter (·.2 != placeholder) :=
      List.mem_filter.mpr ⟨hpair, bne_iff_ne.mpr hbound⟩
    obtain ⟨entry, hentry, rfl, hholds⟩ := exists_mem_of_forall₂ hbinds hmem
    exact ⟨entry.2, hget hentry, hv.readsField_of_holds hwf hholds⟩

end Binder

namespace Plan

variable {R : Type} {r : Registry} {v : EnumValue} {arms : List (Arm R)} {p : Plan} {i : Nat}
  {arm : Arm R} {b : Bindings}

/-- The bindings of the arm that fires are what can be read from the instance. -/
theorem Fires.bindsRead (hr : r.Consistent) (hv : v.WellFormed r)
    (hp : compile v.type (arms.map (·.head)) = .ok p) (h : p.Fires arms v i arm b) :
    v.BindsRead v.payload v.fields arm.head.binder b := by
  have htype : v.type.WellFormed := hr.wellFormed _ hv.registered
  have hwf : v.variant.shape.WellFormed := (htype.variant _ (List.getElem_mem _)).shape
  obtain ⟨entries, rfl, hbinds⟩ := h.exists_binds hr hv hp
  obtain ⟨hfits, hshape⟩ := fits_of_armFor? htype hp h.arm_eq h.entry
  exact Binder.bindsRead_of_binds hv hwf hshape hfits hbinds

/-- A binder that fits the variant of a value can be used on it: in an arm that names the variant, with a
wildcard behind for the others. -/
theorem exists_fires_first (hr : r.Consistent) (hv : v.WellFormed r) {binder : Binder}
    (hfits : binder.Fits (some v.variant.shape)) (body other : Bindings → R) :
    ∃ p b,
      compile v.type ([Arm.on v.variantName binder body, .otherwise .ignore other].map (·.head))
        = .ok p ∧
      p.Fires [.on v.variantName binder body, .otherwise .ignore other] v 0
        (.on v.variantName binder body) b := by
  have htype : v.type.WellFormed := hr.wellFormed _ hv.registered
  have hmem : v.variant ∈ v.type.variants := List.getElem_mem _
  have hnamed : ∀ h ∈ [ArmHead.mk (.variant v.variantName) binder], h.pattern ≠ .wildcard := by simp
  have hadmissible : (ArmHead.mk (.variant v.variantName) binder).Admissible v.type [] := by
    refine ⟨by simp, ?_, by simp, ?_⟩
    · rintro name hname
      cases hname
      exact List.mem_map_of_mem hmem
    · rw [ArmHead.shape?_of_pattern htype.names_nodup rfl]
      exact hfits
  have haccepts : v.type.Accepts [ArmHead.mk (.variant v.variantName) binder] :=
    EnumType.accepts_concat_iff.mpr ⟨EnumType.accepts_nil, hadmissible⟩
  have hexhausts : v.type.Exhausts ([ArmHead.mk (.variant v.variantName) binder] ++ [.catchAll]) :=
    EnumType.exhausts_completed
  obtain ⟨p, hp⟩ : ∃ p, compile v.type
      ([Arm.on v.variantName binder body, .otherwise .ignore other].map (·.head)) = .ok p :=
    (exists_compile_iff htype).mpr ⟨(EnumType.accepts_completed_iff hnamed).mpr haccepts, hexhausts⟩
  obtain ⟨i, arm, b, hfires⟩ := exists_fires hr hv hp
  -- the arm names the variant of the value, so it is the one that fires
  have hfirst := (armFor?_eq_some_iff_takes htype hp (i := 0) rfl).mpr (.inl rfl)
  obtain rfl : 0 = i := Option.some.inj (hfirst.symm.trans hfires.entry)
  obtain rfl : Arm.on v.variantName binder body = arm := Option.some.inj hfires.arm_eq
  exact ⟨p, b, hp, hfires⟩

end Plan

namespace World

/-- All ways of reading agree. Under a name that is no variant of the type, or another variant than the
one held, neither the payload nor the stored fields can be read, and both reads report the same. Under
the name of the variant held both succeed and say the same of each field (`EnumValue.ReadingsAgree`).
What is bound when an arm fires is again the same, whichever accepted list the arm is in
(`EnumValue.BindsRead`), and the matcher runs the body on these bindings. Such a list there is for every
binder that fits the variant. -/
theorem Reachable.readings_agree {R : Type} {w : World} (hw : w.Reachable) {v : EnumValue}
    (hv : v ∈ w.held) (variant : String) :
    (variant ∉ v.type.variantNames →
      v.extract variant = .error (.unknownVariant v.type.name variant) ∧
      v.extractFields variant = .error (.unknownVariant v.type.name variant)) ∧
    (variant ∈ v.type.variantNames → variant ≠ v.variantName →
      v.extract variant = .error (.variantMismatch v.type.name variant v.variantName) ∧
      v.extractFields variant = .error (.variantMismatch v.type.name variant v.variantName)) ∧
    ((∃ payload, v.extract variant = .ok payload) ↔ v.is variant = true) ∧
    ((∃ stored, v.extractFields variant = .ok stored) ↔ v.is variant = true) ∧
    ∀ payload stored, v.extract variant = .ok payload → v.extractFields variant = .ok stored →
      v.ReadingsAgree payload stored ∧
      (∀ (arms : List (Arm R)) p i arm b, Plan.compile v.type (arms.map (·.head)) = .ok p →
        p.Fires arms v i arm b →
          v.BindsRead payload stored arm.head.binder b ∧
          ∀ m : Matcher, m = w.session.matcher ∨ m.Reachable w.session.registry →
            (m.evaluate v arms).1 = .ok (arm.body b)) ∧
      ∀ binder : Binder, binder.Fits (some v.variant.shape) → ∀ body other : Bindings → R,
        ∃ p b,
          Plan.compile v.type ([Arm.on variant binder body, .otherwise .ignore other].map (·.head))
            = .ok p ∧
          p.Fires [.on variant binder body, .otherwise .ignore other] v 0
            (.on variant binder body) b := by
  have hcon := hw.sound.registry.consistent
  have hwf : v.WellFormed w.session.registry := hw.sound.held v hv
  have htype : v.type.WellFormed := hcon.wellFormed _ hwf.registered
  have hshape : v.variant.shape.WellFormed := (htype.variant _ (List.getElem_mem _)).shape
  refine ⟨?_, ?_, ?_, ?_, ?_⟩
  · intro hunknown
    have hcheck := EnumValue.checkVariant_of_unknown htype hunknown
    exact ⟨EnumValue.extract_eq_error_iff.mpr hcheck, EnumValue.extractFields_eq_error_iff.mpr hcheck⟩
  · intro hknown hother
    have hcheck := EnumValue.checkVariant_of_other htype hknown hother
    exact ⟨EnumValue.extract_eq_error_iff.mpr hcheck, EnumValue.extractFields_eq_error_iff.mpr hcheck⟩
  · simp only [EnumValue.extract_eq_ok_iff htype, EnumValue.is_iff, exists_and_left, exists_eq,
      and_true]
  · simp only [EnumValue.extractFields_eq_ok_iff htype, EnumValue.is_iff, exists_and_left,
      exists_eq, and_true]
  · intro payload stored hpayload hstored
    obtain ⟨rfl, rfl⟩ := (EnumValue.extract_eq_ok_iff htype).mp hpayload
    obtain ⟨-, rfl⟩ := (EnumValue.extractFields_eq_ok_iff htype).mp hstored
    refine ⟨hwf.readingsAgree hshape, ?_, ?_⟩
    · intro arms p i arm b hp hfires
      refine ⟨hfires.bindsRead hcon hwf hp, ?_⟩
      intro m hm
      exact hw.evaluate_of_fires hv hm hp hfires
    · intro binder hfits body other
      exact Plan.exists_fires_first hcon hwf hfits body other

/-- The text of the message, read by position and bound by position. Under the names of other variants the
message cannot be read. -/
theorem Reachable.readings_agree_messages :
    written.extract "Quit" = .error (.variantMismatch "Message" "Quit" "Write") ∧
      written.extractFields "Erase" = .error (.unknownVariant "Message" "Erase") ∧
      ∃ payload stored p b x, written.extract "Write" = .ok payload ∧
        written.extractFields "Write" = .ok stored ∧
        Plan.Fires p [.on "Write" (.positional ["text"]) id, .otherwise .ignore id] written 0
          (.on "Write" (.positional ["text"]) id) b ∧
        b.get? "text" = some x ∧ payload.get? 0 = some x ∧ stored[0]? = some x := by
  have hheld : written ∈ messages.held := by simp [messages]
  have hreadings := reachable_messages.readings_agree (R := Bindings) hheld
  obtain ⟨-, hother, -⟩ := hreadings "Quit"
  obtain ⟨hunknown, -⟩ := hreadings "Erase"
  obtain ⟨-, -, hpayload, hstored, hagree⟩ := hreadings "Write"
  obtain ⟨payload, hpayload⟩ := hpayload.mpr rfl
  obtain ⟨stored, hstored⟩ := hstored.mpr rfl
  obtain ⟨-, hbinds, hfits⟩ := hagree payload stored hpayload hstored
  obtain ⟨p, b, hp, hfires⟩ := hfits (.positional ["text"]) ⟨rfl, by decide⟩ id id
  obtain ⟨hread, -⟩ := hbinds _ p 0 _ b hp hfires
  obtain ⟨x, hx⟩ := hread.position ["text"] rfl 0 "text" rfl (by decide)
  exact ⟨(hother (by decide) (by decide)).1, (hunknown (by decide)).2, payload, stored, p, b, x,
    hpayload, hstored, hfires, hx⟩

end World

end TaggedUnion
