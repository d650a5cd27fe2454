import TaggedUnion.Proofs.Session.Invariant

/-!
# Making and reading undo each other

Making an instance stores the fields of a payload in declared order, and reading one names them
again. What is lost on the way is the order in which fields were supplied by name, and nothing else.

* `Shape.Arranges`: one payload is another with its fields in declared order.
* `Shape.payloadOf`: the payload that stored fields make up, for a shape; `EnumValue.payload` is this.
* `Shape.conform_eq_ok_iff`: what a payload is stored as, said by what it can be read as again.
* `World.Reachable.construct_extract_inverse`: reading gives back what an instance was made of, and
  making one of what was read gives back the instance.
-/

namespace TaggedUnion

theorem forall₂_iff_zip_swap {α β : Type} {R : α → β → Prop} {xs : List α} {ys : List β} :
    List.Forall₂ R xs ys ↔ ys.length = xs.length ∧ ∀ y x, (y, x) ∈ ys.zip xs → R x y := by
  have hflip : List.Forall₂ R xs ys ↔ List.Forall₂ (flip R) ys xs :=
    ⟨List.Forall₂.flip, List.Forall₂.flip⟩
  rw [hflip, List.forall₂_iff_zip]
  exact ⟨fun h => ⟨h.1, fun _ _ hmem => h.2 hmem⟩, fun h => ⟨h.1, fun hmem => h.2 _ _ hmem⟩⟩

namespace Shape

/-! ## Payloads in declared order -/

/-- `s.Arranges p q`: the payload `q` is `p`, of the kind of `s`, with the fields in declared order. -/
inductive Arranges : Shape → Payload → Payload → Prop
  | unit : Arranges .unit .unit .unit
  | positional {types : List FieldType} {values : List Value} :
      Arranges (.positional types) (.positional values) (.positional values)
  | named {declared : List Field} {supplied fields : List (String × Value)}
      (hperm : fields.Perm supplied) (hnames : fields.map (·.1) = declared.map (·.name)) :
      Arranges (.named declared) (.named supplied) (.named fields)

/-- The payload that stored fields make up. -/
def payloadOf : Shape → List Value → Payload
  | .unit, _ => .unit
  | .positional _, stored => .positional stored
  | .named declared, stored => .named ((declared.map (·.name)).zip stored)

/-- The stored fields are of the declared types, as the checks compare types. -/
def Stores (s : Shape) (stored : List Value) : Prop :=
  List.Forall₂ (fun (v : Value) type => v.conformsTo type = true) stored s.fieldTypes

variable {declared : List Field} {supplied : List (String × Value)} {stored : List Value}

/-- One value is stored for each declared field, and of its type. -/
theorem stores_named_iff : (named declared).Stores stored ↔
    declared.length = stored.length ∧
      ∀ (field : Field) x, (field, x) ∈ declared.zip stored → x.conformsTo field.type = true := by
  unfold Stores fieldTypes
  rw [List.forall₂_map_right_iff, forall₂_iff_zip_swap]

theorem mem_zip_names_iff {name : String} {x : Value} :
    (name, x) ∈ (declared.map (·.name)).zip stored ↔
      ∃ field, (field, x) ∈ declared.zip stored ∧ field.name = name := by
  rw [List.zip_map_left, List.mem_map]
  constructor
  · rintro ⟨⟨field, y⟩, hmem, heq⟩
    cases heq
    exact ⟨field, hmem, rfl⟩
  · rintro ⟨field, hmem, rfl⟩
    exact ⟨(field, x), hmem, rfl⟩

/-- The names that are read are the declared ones, in declared order. -/
theorem map_fst_zip_names (hlen : declared.length = stored.length) :
    ((declared.map (·.name)).zip stored).map (·.1) = declared.map (·.name) :=
  List.map_fst_zip (by simp [hlen])

/-- A slot holds what was supplied under the name of its field. If no field is supplied twice and all are
declared, then nothing else was supplied. -/
theorem perm_of_lookups (hnodup : (declared.map (·.name)).Nodup)
    (hsupplied : (supplied.map (·.1)).Nodup)
    (hdeclared : ∀ entry ∈ supplied, entry.1 ∈ declared.map (·.name))
    (hstored : List.Forall₂ (fun x (field : Field) => supplied.lookup field.name = some x)
      stored declared) :
    ((declared.map (·.name)).zip stored).Perm supplied := by
  rw [forall₂_iff_zip_swap] at hstored
  obtain ⟨hlen, hlookup⟩ := hstored
  have hkeys := map_fst_zip_names hlen
  -- each pair that is read was looked up
  have hfound : ∀ name x, (name, x) ∈ (declared.map (·.name)).zip stored →
      supplied.lookup name = some x := by
    intro name x hmem
    obtain ⟨field, hzip, rfl⟩ := mem_zip_names_iff.mp hmem
    exact hlookup field x hzip
  rw [← hkeys] at hnodup hdeclared
  rw [List.perm_ext_iff_of_nodup (.of_map Prod.fst hnodup) (.of_map Prod.fst hsupplied)]
  rintro ⟨name, x⟩
  constructor
  · intro hmem
    exact mem_of_lookup_eq_some (hfound name x hmem)
  · intro hmem
    -- the value stored under this name was looked up, and there is only one to find
    obtain ⟨⟨_, y⟩, hzip, rfl⟩ := List.mem_map.mp (hdeclared (name, x) hmem)
    have hsame : some y = some x :=
      (hfound _ y hzip).symm.trans ((lookup_eq_some_iff_mem hsupplied).mpr hmem)
    cases hsame
    exact hzip

/-- Fields by name are stored as what, paired with the declared names, is a rearrangement of them,
provided each is of its declared type. -/
theorem conform_named_eq_ok_iff (hwf : (named declared).WellFormed) :
    (named declared).conform (.named supplied) = .ok stored ↔
      ((declared.map (·.name)).zip stored).Perm supplied ∧ (named declared).Stores stored := by
  constructor
  · intro h
    refine ⟨?_, typed_of_conform hwf h⟩
    obtain ⟨hentries, hsupplied, hlookup⟩ := (conform_named_eq_ok_iff_lookup hwf.2).mp h
    -- every name supplied is that of a declared field
    refine perm_of_lookups hwf.2 hsupplied (fun entry hentry => ?_) hlookup
    obtain ⟨field, hfind, -⟩ := hentries entry hentry
    obtain ⟨hfield, hname⟩ := (find?_eq_some_iff_of_nodup hwf.2).mp hfind
    rw [← hname]
    exact List.mem_map_of_mem hfield
  · rintro ⟨hperm, hstores⟩
    obtain ⟨hlen, hconforms⟩ := stores_named_iff.mp hstores
    -- a rearrangement of distinct names has distinct names
    have hsupplied : (supplied.map (·.1)).Nodup := by
      rw [← (hperm.map Prod.fst).nodup_iff, map_fst_zip_names hlen]
      exact hwf.2
    refine (conform_named_eq_ok_iff_lookup hwf.2).mpr ⟨?_, hsupplied, ?_⟩
    · rintro ⟨name, x⟩ hentry
      obtain ⟨field, hzip, rfl⟩ := mem_zip_names_iff.mp (hperm.mem_iff.mpr hentry)
      exact ⟨field, find?_eq_some_of_nodup hwf.2 (List.of_mem_zip hzip).1, hconforms field x hzip⟩
    · rw [forall₂_iff_zip_swap]
      refine ⟨hlen, fun field x hzip => ?_⟩
      rw [lookup_eq_some_iff_mem hsupplied, ← hperm.mem_iff]
      exact mem_zip_names_iff.mpr ⟨field, hzip, rfl⟩

/-- A payload is stored as what can be read as this payload in declared order, provided each field is
of its declared type. -/
theorem conform_eq_ok_iff {s : Shape} (hwf : s.WellFormed) {payload : Payload} :
    s.conform payload = .ok stored ↔ s.Arranges payload (s.payloadOf stored) ∧ s.Stores stored := by
  constructor
  · intro h
    have hstores : s.Stores stored := typed_of_conform hwf h
    refine ⟨?_, hstores⟩
    rcases conform_cases h with ⟨rfl, rfl, -⟩ | ⟨types, rfl, rfl, -⟩ |
      ⟨declared, supplied, rfl, rfl, -⟩
    · exact .unit
    · exact .positional
    · have hlen := (stores_named_iff.mp hstores).1
      exact .named ((conform_named_eq_ok_iff hwf).mp h).1 (map_fst_zip_names hlen)
  · rintro ⟨harranges, hstores⟩
    cases s with
    | unit =>
      cases harranges
      have hnil : stored = [] := List.forall₂_nil_right_iff.mp hstores
      rw [hnil]
      rfl
    | positional types =>
      cases harranges
      have hlen : types.length = stored.length := hstores.length_eq.symm
      rw [conform, if_neg (not_not.mpr hlen), map_eq_ok_iff]
      exact ⟨(), (checkPositions_eq_ok_iff hlen).mpr hstores, rfl⟩
    | named declared =>
      cases harranges with
      | named hperm _ => exact (conform_named_eq_ok_iff hwf).mpr ⟨hperm, hstores⟩

/-- What is stored can be read in one way only, and what was read has its fields in declared order. -/
theorem arranges_payloadOf {s : Shape} (hstores : s.Stores stored) :
    s.Arranges (s.payloadOf stored) (s.payloadOf stored) := by
  cases s with
  | unit => exact .unit
  | positional types => exact .positional
  | named declared => exact .named (.refl _) (map_fst_zip_names (stores_named_iff.mp hstores).1)

/-- In which order fields were supplied by name does not show in what is read. -/
theorem Arranges.reorder {s : Shape} {supplied' : List (String × Value)} {q : Payload}
    (h : s.Arranges (.named supplied) q) (hperm : supplied'.Perm supplied) :
    s.Arranges (.named supplied') q := by
  cases h with
  | named hfields hnames => exact .named (hfields.trans hperm.symm) hnames

end Shape

/-! ## Instances -/

namespace EnumValue

/-- An instance is read as the payload that its fields make up for its shape. -/
theorem payload_eq (v : EnumValue) : v.payload = v.variant.shape.payloadOf v.fields := by
  unfold payload
  cases v.variant.shape with
  | unit => rfl
  | positional types => rfl
  | named declared =>
    show Payload.named (List.zipWith _ declared v.fields) = _
    rw [Shape.payloadOf, List.zip, List.zipWith_map_left]

theorem WellFormed.stores {r : Registry} {v : EnumValue} (h : v.WellFormed r) :
    v.variant.shape.Stores v.fields := by
  unfold Shape.Stores
  rw [← h.typed, List.forall₂_map_right_iff, List.forall₂_same]
  intro x _
  exact beq_self_eq_true x.type

end EnumValue

/-- An instance is made exactly if its tag is the one of the name, and its fields are of the declared
types and can be read as the payload in declared order. -/
theorem construct_eq_ok_iff_arranges {type : EnumType} (htype : type.WellFormed)
    {variant : String} {payload : Payload} {v : EnumValue} :
    construct type variant payload = .ok v ↔
      v.type = type ∧ v.variantName = variant ∧ v.variant.shape.Arranges payload v.payload ∧
        v.variant.shape.Stores v.fields := by
  have hconform : ∀ (tag : Fin type.variants.length) stored,
      (type.variants.get tag).shape.conform payload = .ok stored ↔
        (type.variants.get tag).shape.Arranges payload
            ((type.variants.get tag).shape.payloadOf stored) ∧
          (type.variants.get tag).shape.Stores stored :=
    fun tag _ => Shape.conform_eq_ok_iff (htype.variant _ (List.get_mem _ tag)).shape
  rw [construct_eq_ok_iff htype, EnumValue.payload_eq]
  constructor
  · rintro ⟨tag, stored, hname, hstored, rfl⟩
    exact ⟨rfl, hname, (hconform tag stored).mp hstored⟩
  · rintro ⟨rfl, hname, hstored⟩
    obtain ⟨type, tag, stored⟩ := v
    exact ⟨tag, stored, hname, (hconform tag stored).mpr hstored, rfl⟩

namespace World

variable {w : World}

/-- Making and reading undo each other. An instance has the type, the tag and the name that were asked
for, and reading it under this name gives the payload back, where fields by name are put in declared
order. To supply them in another order makes the same instance. Any instance that clients can hold, and
any instance in it, can be made again of what is read from it. Values are the same if they are equal as
data: a double is its 64 bits, so a NaN comes back as the one that was supplied. -/
theorem Reachable.construct_extract_inverse (hw : w.Reachable) :
    (∀ type ∈ w.session.registry.types, ∀ variant payload v,
      construct type variant payload = .ok v →
        v.type = type ∧ type.tag? variant = some v.tag.val ∧ v.variantName = variant ∧
        (∃ read, v.extract variant = .ok read ∧ v.variant.shape.Arranges payload read) ∧
        ∀ supplied supplied', payload = .named supplied → supplied'.Perm supplied →
          construct type variant (.named supplied') = .ok v) ∧
    ∀ v ∈ w.held, ∀ x : EnumValue, x.Within v →
      ∃ read, x.extract x.variantName = .ok read ∧ construct x.type x.variantName read = .ok x := by
  have hcon := hw.sound.registry.consistent
  refine ⟨?_, ?_⟩
  · intro type ht variant payload v hmade
    have htype : type.WellFormed := hcon.wellFormed type ht
    obtain ⟨rfl, rfl, harranges, hstores⟩ := (construct_eq_ok_iff_arranges htype).mp hmade
    have hread : v.extract v.variantName = .ok v.payload :=
      (EnumValue.extract_eq_ok_iff htype).mpr ⟨rfl, rfl⟩
    refine ⟨rfl, EnumValue.tag?_variantName htype, rfl, ⟨v.payload, hread, harranges⟩, ?_⟩
    · rintro supplied supplied' rfl hperm
      exact (construct_eq_ok_iff_arranges htype).mpr ⟨rfl, rfl, harranges.reorder hperm, hstores⟩
  · intro v hv x hx
    have hwf : x.WellFormed w.session.registry := (hw.sound.held v hv).within hx
    have htype : x.type.WellFormed := hcon.wellFormed _ hwf.registered
    have hread : x.extract x.variantName = .ok x.payload :=
      (EnumValue.extract_eq_ok_iff htype).mpr ⟨rfl, rfl⟩
    refine ⟨x.payload, hread, (construct_eq_ok_iff_arranges htype).mpr ⟨rfl, rfl, ?_, hwf.stores⟩⟩
    rw [EnumValue.payload_eq]
    exact Shape.arranges_payloadOf hwf.stores

/-- A move is made of its two fields in either order, and the message in an option is made again of
its text. -/
theorem Reachable.construct_extract_inverse_messages :
    (∃ v read, construct Registry.message "Move" (.named [("y", .int 2), ("x", .int 1)]) = .ok v ∧
      construct Registry.message "Move" (.named [("x", .int 1), ("y", .int 2)]) = .ok v ∧
      v.extract "Move" = .ok read ∧
      (Shape.named [⟨"x", .scalar .int⟩, ⟨"y", .scalar .int⟩]).Arranges
        (.named [("y", .int 2), ("x", .int 1)]) read) ∧
      ∃ read, written.extract "Write" = .ok read ∧
        construct Registry.message "Write" read = .ok written := by
  obtain ⟨hmade, hheld⟩ := reachable_messages.construct_extract_inverse
  have hregistered : Registry.message ∈ messages.session.registry.types := List.mem_cons_self
  have hmove : construct Registry.message "Move" (.named [("y", .int 2), ("x", .int 1)])
      = .ok ⟨Registry.message, ⟨1, by decide⟩, [.int 1, .int 2]⟩ := rfl
  obtain ⟨-, -, -, ⟨read, hread, harranges⟩, hreorder⟩ := hmade _ hregistered _ _ _ hmove
  have hswapped := hreorder _ [("x", .int 1), ("y", .int 2)] rfl (.swap _ _ _)
  have hoption : writtenOption ∈ messages.held := by simp [messages]
  have hwithin : written.Within writtenOption := .field (by simp [writtenOption]) .self
  exact ⟨⟨_, read, hmove, hswapped, hread, harranges⟩, hheld _ hoption _ hwithin⟩

/-- Two NaNs are two values, and each of them is read as it was stored. -/
example :
    let reading : EnumType :=
      ⟨⟨0⟩, "Reading", [⟨"Of", .positional [.scalar .float]⟩], ⟨[("Of", 0)]⟩⟩
    let nan (bits : UInt64) : Payload := .positional [.float ⟨bits⟩]
    (construct reading "Of" (nan 0x7ff8000000000001) >>= (·.extract "Of"))
        = .ok (nan 0x7ff8000000000001) ∧
      (construct reading "Of" (nan 0xfff8000000000002) >>= (·.extract "Of"))
        = .ok (nan 0xfff8000000000002) ∧
      nan 0x7ff8000000000001 ≠ nan 0xfff8000000000002 :=
  ⟨rfl, rfl, by simp⟩

end World

end TaggedUnion
