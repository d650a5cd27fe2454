import TaggedUnion.Proofs.Value.Equality
import TaggedUnion.Proofs.Value.RoundTrip

/-!
# Instances are equal as their payloads are

Two instances of a variant are compared position by position, and two payloads by name are compared by
searching for names. What ties the two together is that fields are stored in declared order: paired
with the declared names, which are distinct, each position is found under its name again.

* `Payload.sameFields_zip_iff`: under the same distinct names in the same order, payloads have the same
  fields if their values are equal position by position.
* `Shape.payloadOf_beq_iff`: hence stored fields are equal exactly if they are read as equal payloads.
* `Shape.Arranges.beq_congr`: to put fields in declared order does not change what a payload is equal
  to.
* `construct_beq`: so instances are equal exactly if they were made of equal payloads.
* `World.Reachable.equality_of_payloads`: this, and the same for instances and what is read from them.
-/

namespace TaggedUnion

/-- Under the same distinct names, having the same fields is having equal values position by
position. -/
theorem Payload.sameFields_zip_iff {names : List String} (hnodup : names.Nodup) {xs ys : List Value}
    (hxs : names.length = xs.length) (hys : names.length = ys.length) :
    SameFields (names.zip xs) (names.zip ys) ↔
      List.Forall₂ (fun x y => (x == y) = true) xs ys := by
  constructor
  · intro h
    rw [List.forall₂_iff_get]
    refine ⟨hxs.symm.trans hys, ?_⟩
    intro i hi hi'
    have hname : i < names.length := hxs ▸ hi
    have hx : (names.zip xs)[i]? = some (names[i], xs[i]) := by simp [List.getElem?_zip_eq_some]
    have hy : (names.zip ys)[i]? = some (names[i], ys[i]) := by simp [List.getElem?_zip_eq_some]
    exact h.values _ _ _ (List.mem_of_getElem? hx) (List.mem_of_getElem? hy)
  · intro h
    refine ⟨by simp [← hxs, ← hys], ?_, ?_⟩
    · intro name
      rw [List.map_fst_zip (Nat.le_of_eq hxs), List.map_fst_zip (Nat.le_of_eq hys)]
    · intro name x y hx hy
      obtain ⟨i, hi⟩ := List.mem_iff_getElem?.mp hx
      obtain ⟨j, hj⟩ := List.mem_iff_getElem?.mp hy
      obtain ⟨hi, hxi⟩ := List.getElem?_zip_eq_some.mp hi
      obtain ⟨hj, hyj⟩ := List.getElem?_zip_eq_some.mp hj
      -- a name stands at one position only, and there the values are equal
      obtain ⟨hlt, -⟩ := List.getElem?_eq_some_iff.mp hi
      obtain rfl : i = j := (List.getElem?_inj hlt hnodup).mp (hi.trans hj.symm)
      obtain ⟨hltx, rfl⟩ := List.getElem?_eq_some_iff.mp hxi
      obtain ⟨hlty, rfl⟩ := List.getElem?_eq_some_iff.mp hyj
      exact h.get hltx hlty

namespace Shape

variable {s : Shape} {xs ys : List Value}

/-- Stored fields are equal exactly if they are read as equal payloads. -/
theorem payloadOf_beq_iff (hs : s.WellFormed) (hxs : s.Stores xs) (hys : s.Stores ys) :
    (s.payloadOf xs == s.payloadOf ys) = true ↔
      List.Forall₂ (fun x y => (x == y) = true) xs ys := by
  cases s with
  | unit =>
    rw [List.forall₂_nil_right_iff.mp hxs, List.forall₂_nil_right_iff.mp hys]
    exact iff_of_true rfl .nil
  | positional types => exact Payload.positional_beq_iff
  | named declared =>
    have hlenx : (declared.map (·.name)).length = xs.length := by
      rw [List.length_map, (stores_named_iff.mp hxs).1]
    have hleny : (declared.map (·.name)).length = ys.length := by
      rw [List.length_map, (stores_named_iff.mp hys).1]
    exact Payload.named_beq_iff.trans (Payload.sameFields_zip_iff hs.2 hlenx hleny)

/-- A payload that was put in declared order is equal to what it was equal to before. -/
theorem Arranges.beq_congr {p p' : Payload} (h : s.Arranges p p') (q : Payload) :
    (p == q) = (p' == q) := by
  cases h with
  | unit => rfl
  | positional => rfl
  | named hperm _ => exact Payload.named_beq_congr hperm q

end Shape

/-- Two instances of one variant are equal exactly if what is read from them is. -/
theorem EnumValue.beq_eq_payload_beq {type : EnumType} {tag : Fin type.variants.length}
    {xs ys : List Value} (hs : (type.variants.get tag).shape.WellFormed)
    (hxs : (type.variants.get tag).shape.Stores xs)
    (hys : (type.variants.get tag).shape.Stores ys) :
    (EnumValue.mk type tag xs == EnumValue.mk type tag ys)
      = ((EnumValue.mk type tag xs).payload == (EnumValue.mk type tag ys).payload) := by
  rw [EnumValue.payload_eq, EnumValue.payload_eq, Bool.eq_iff_iff]
  have hpayloads := Shape.payloadOf_beq_iff hs hxs hys
  refine EnumValue.beq_iff.trans (Iff.trans ?_ hpayloads.symm)
  simp

/-- Instances made under one name are equal exactly if they are made of equal payloads. -/
theorem construct_beq {type : EnumType} (htype : type.WellFormed) {variant : String}
    {p q : Payload} {a b : EnumValue} (ha : construct type variant p = .ok a)
    (hb : construct type variant q = .ok b) : (a == b) = (p == q) := by
  obtain ⟨tag, xs, htag, hxs, rfl⟩ := (construct_eq_ok_iff htype).mp ha
  obtain ⟨_, ys, htag', hys, rfl⟩ := (construct_eq_ok_iff htype).mp hb
  obtain rfl := EnumType.tag_eq_of_name_eq htype (htag.trans htag'.symm)
  have hs : (type.variants.get tag).shape.WellFormed :=
    (htype.variant _ (List.get_mem _ tag)).shape
  obtain ⟨hp, hstores⟩ := (Shape.conform_eq_ok_iff hs).mp hxs
  obtain ⟨hq, hstores'⟩ := (Shape.conform_eq_ok_iff hs).mp hys
  have hread : ∀ stored, (EnumValue.mk type tag stored).payload
      = (type.variants.get tag).shape.payloadOf stored := fun stored => EnumValue.payload_eq _
  rw [EnumValue.beq_eq_payload_beq hs hstores hstores', hread, hread, ← hp.beq_congr, BEq.comm,
    ← hq.beq_congr, BEq.comm]

/-- Well-formed instances are equal exactly if they are of the same type, hold the same variant, and
what is read under its name is equal. -/
theorem EnumValue.WellFormed.beq_iff_extract {r : Registry} (hr : r.Consistent) {a b : EnumValue}
    (ha : a.WellFormed r) (hb : b.WellFormed r) :
    (a == b) = true ↔ a.type.id = b.type.id ∧ a.variantName = b.variantName ∧
      ∃ p q, a.extract a.variantName = .ok p ∧ b.extract a.variantName = .ok q ∧
        (p == q) = true := by
  have htype : a.type.WellFormed := hr.wellFormed _ ha.registered
  have hs : a.variant.shape.WellFormed := (htype.variant _ (List.getElem_mem _)).shape
  have hreada : ∀ variant p, a.extract variant = .ok p ↔ a.variantName = variant ∧ p = a.payload :=
    fun _ _ => EnumValue.extract_eq_ok_iff htype
  have hreadb : ∀ variant p, b.extract variant = .ok p ↔ b.variantName = variant ∧ p = b.payload :=
    fun _ _ => EnumValue.extract_eq_ok_iff (hr.wellFormed _ hb.registered)
  by_cases hid : a.type.id = b.type.id
  · -- the registry has one type of this identity
    have hsame : a.type = b.type := hr.eq_of_id_eq ha.registered hb.registered hid
    obtain ⟨type, tag, xs⟩ := a
    obtain ⟨_, tag', ys⟩ := b
    obtain rfl : type = _ := hsame
    constructor
    · intro hbeq
      obtain ⟨-, htag, -⟩ := EnumValue.beq_iff.mp hbeq
      obtain rfl : tag = tag' := Fin.ext htag
      rw [EnumValue.beq_eq_payload_beq hs ha.stores hb.stores] at hbeq
      exact ⟨rfl, rfl, _, _, (hreada _ _).mpr ⟨rfl, rfl⟩, (hreadb _ _).mpr ⟨rfl, rfl⟩, hbeq⟩
    · rintro ⟨-, hname, p, q, hp, hq, hbeq⟩
      obtain ⟨-, rfl⟩ := (hreada _ _).mp hp
      obtain ⟨-, rfl⟩ := (hreadb _ _).mp hq
      obtain rfl : tag = tag' := EnumType.tag_eq_of_name_eq htype hname
      rw [EnumValue.beq_eq_payload_beq hs ha.stores hb.stores]
      exact hbeq
  · exact iff_of_false (fun hbeq => hid (EnumValue.beq_iff.mp hbeq).1) fun h => hid h.1

namespace World

variable {w : World}

/-- Equality of instances is equality of payloads. Take a registered type, the name of a variant, and
two payloads that instances are made of under this name, whatever the order of their fields and the
values in them: the instances are equal exactly if the payloads are. Take two instances that clients
can hold, or instances in them: they are equal exactly if their types have the same identity, they hold
the same variant, and both can be read under its name, which gives equal payloads. -/
theorem Reachable.equality_of_payloads (hw : w.Reachable) :
    (∀ type ∈ w.session.registry.types, ∀ variant p q a b,
      construct type variant p = .ok a → construct type variant q = .ok b →
        (a == b) = (p == q)) ∧
    ∀ v ∈ w.held, ∀ u ∈ w.held, ∀ a b : EnumValue, a.Within v → b.Within u →
      ((a == b) = true ↔ a.type.id = b.type.id ∧ a.variantName = b.variantName ∧
        ∃ p q, a.extract a.variantName = .ok p ∧ b.extract a.variantName = .ok q ∧
          (p == q) = true) := by
  have hcon := hw.sound.registry.consistent
  refine ⟨?_, ?_⟩
  · intro type ht variant p q a b ha hb
    exact construct_beq (hcon.wellFormed type ht) ha hb
  · intro v hv u hu a b ha hb
    have hav : a.WellFormed w.session.registry := (hw.sound.held v hv).within ha
    have hbu : b.WellFormed w.session.registry := (hw.sound.held u hu).within hb
    exact hav.beq_iff_extract hcon hbu

/-- Two moves that were made of fields in different orders are equal, as the payloads are. The message
and the option that holds it are not. -/
theorem Reachable.equality_of_payloads_messages :
    (∃ a b, construct Registry.message "Move" (.named [("y", .int 2), ("x", .int 1)]) = .ok a ∧
      construct Registry.message "Move" (.named [("x", .int 1), ("y", .int 2)]) = .ok b ∧
      (a == b) = true) ∧
    (written == written) = true ∧ (written == writtenOption) = false := by
  obtain ⟨hmade, hheld⟩ := reachable_messages.equality_of_payloads
  have hregistered : Registry.message ∈ messages.session.registry.types := List.mem_cons_self
  have hmessage : written ∈ messages.held := by simp [messages]
  have hoption : writtenOption ∈ messages.held := by simp [messages]
  have hwithin : written.Within writtenOption := .field (by simp [writtenOption]) .self
  have hmove : construct Registry.message "Move" (.named [("y", .int 2), ("x", .int 1)])
      = .ok ⟨Registry.message, ⟨1, by decide⟩, [.int 1, .int 2]⟩ := rfl
  have hmove' : construct Registry.message "Move" (.named [("x", .int 1), ("y", .int 2)])
      = .ok ⟨Registry.message, ⟨1, by decide⟩, [.int 1, .int 2]⟩ := rfl
  refine ⟨⟨_, _, hmove, hmove', ?_⟩, ?_, ?_⟩
  · rw [hmade _ hregistered _ _ _ _ _ hmove hmove']
    decide
  · exact (hheld _ hmessage _ hoption _ _ .self hwithin).mpr ⟨rfl, rfl, _, _, rfl, rfl, by decide⟩
  · rw [← Bool.not_eq_true, hheld _ hmessage _ hoption _ _ .self .self]
    rintro ⟨hid, -⟩
    exact absurd hid (by decide)

end World

end TaggedUnion
