import TaggedUnion.Proofs.Optional.Table
import TaggedUnion.Proofs.Value.Nesting

/-!
# Options of options

Asking for the option type over a type, then for the one over that option type, and so on, gives a new
type each time: each is registered after the one it holds. With the same order among types that are
registered in any other way, references between types end, and so does everything that follows them.

* `Session.Tower`: a row of option types, each made over the one before it.
* `Session.Tower.increasing`: identities grow along a tower.
* `World.Reachable.references_wellFounded`: references end, towers do not come back, and the identity
  of a type bounds how deep its instances nest and how deep equality and text go into them.
-/

namespace TaggedUnion

namespace Session

/-- Option types asked for one after the other, the first over `inner` and each other one over the one
before it. In between anything may happen to the session. -/
inductive Tower : Session → FieldType → List OptionType → Prop
  | nil {s : Session} {inner : FieldType} : Tower s inner []
  | cons {s s₁ s₂ : Session} {inner : FieldType} {o : OptionType} {os : List OptionType}
      (hgiven : s.optionOver inner = (.ok o, s₁)) (hsteps : Steps s₁ s₂)
      (hrest : Tower s₂ o.fieldType os) : Tower s inner (o :: os)

variable {s s' : Session} {inner : FieldType} {o : OptionType} {os : List OptionType}

/-- An option type has a field of the type that it is made over. -/
theorem Reachable.mentions_inner (hs : s.Reachable) (ho : o ∈ s.options.instances) {ref : TypeRef}
    (hinner : o.inner = .enum ref) : o.type.Mentions ref := by
  refine ⟨⟨OptionType.presentName, .positional [o.inner]⟩, ?_, ?_⟩
  · rw [(hs.registered ho).variants]
    exact List.mem_cons_self
  · rw [hinner]
    exact List.mem_singleton.mpr rfl

/-- Induction on the tower: each option type is registered after the one it holds, which may have
been long before. -/
theorem Tower.increasing (h : s.Tower inner os) (hs : s.Reachable)
    (hinner : s.registry.Knows inner) :
    (∀ ref, inner = .enum ref → ∀ o ∈ os, ref.id.index < o.type.id.index) ∧
      os.Pairwise fun o o' => o.type.id.index < o'.type.id.index := by
  induction h with
  | nil => exact ⟨by simp, .nil⟩
  | @cons s s₁ s₂ inner o os hgiven hsteps _ ih =>
    have hs₁ : s₁.Reachable := hs.next (.optionOver hinner hgiven)
    obtain ⟨ho, rfl⟩ := mem_of_optionOver hs hinner hgiven
    have hregistered := hs₁.registered ho
    -- what was given is known from then on, so the rest is a tower over it
    have hknown : s₂.registry.Knows o.fieldType :=
      ⟨o.type, hsteps.types.subset hregistered.mem, rfl⟩
    obtain ⟨habove, hpairwise⟩ := ih (hs₁.steps hsteps) hknown
    have hrest : ∀ o' ∈ os, o.type.id.index < o'.type.id.index := habove o.type.ref rfl
    refine ⟨?_, .cons hrest hpairwise⟩
    intro ref href
    -- the option type mentions what it is over, and hence is younger
    have hfirst : ref.id.index < o.type.id.index :=
      hs₁.consistent.registry.index_lt_of_mentions hregistered.mem (hs₁.mentions_inner ho href)
    intro o' ho'
    rcases List.mem_cons.mp ho' with rfl | ho'
    · exact hfirst
    · exact hfirst.trans (hrest o' ho')

/-- No two types of a tower are the same, and none is the type at its bottom. -/
theorem Tower.distinct (h : s.Tower inner os) (hs : s.Reachable)
    (hinner : s.registry.Knows inner) :
    (inner :: os.map (·.fieldType)).Pairwise fun a b => (a == b) = false := by
  -- a smaller identity is another one
  have hne : ∀ ref : TypeRef, ∀ o : OptionType, ref.id.index < o.type.id.index →
      (FieldType.enum ref == o.fieldType) = false := by
    intro ref o hlt
    show (ref.id == o.type.id) = false
    rw [beq_eq_false_iff_ne]
    intro hid
    rw [hid] at hlt
    exact Nat.lt_irrefl _ hlt
  obtain ⟨habove, hpairwise⟩ := h.increasing hs hinner
  refine .cons ?_ (List.pairwise_map.mpr (hpairwise.imp fun hlt => hne _ _ hlt))
  intro b hb
  obtain ⟨o, ho, rfl⟩ := List.mem_map.mp hb
  cases inner with
  | scalar _ => rfl
  | enum ref => exact hne ref o (habove ref rfl o ho)

end Session

namespace World

variable {w : World}

/-- References between types are well founded, though nothing checks that they are. Each type that a
registered type mentions is registered, under a smaller identity. So chains of types, of which each has
a field of the next, come to an end, and no type comes back on one; and option types over option types
are new to their row each time. An instance that clients can hold leads inwards through at most one
instance more than its identity says, so that equality and text never have more of them open at once.
Identities count without end here, and as long as a counter of fixed width does not overflow, it counts
the same. -/
theorem Reachable.references_wellFounded (hw : w.Reachable) :
    (∀ t ∈ w.session.registry.types, ∀ ref, t.Mentions ref →
      ref.id.index < t.id.index ∧ ∃ u ∈ w.session.registry.types, u.ref = ref) ∧
    WellFounded (Function.swap w.session.registry.Contains) ∧
    (∀ t, ¬ Relation.TransGen w.session.registry.Contains t t) ∧
    (∀ o ∈ w.session.options.instances, ∀ t ∈ w.session.registry.types,
      o.inner = .enum t.ref → w.session.registry.Contains o.type t) ∧
    (∀ inner os, w.session.registry.Knows inner → w.session.Tower inner os →
      (inner :: os.map (·.fieldType)).Pairwise fun a b => (a == b) = false) ∧
    ∀ v ∈ w.held, ∀ x : EnumValue, x.Within v →
      (∀ path, (x :: path).IsChain EnumValue.Nests →
        (x :: path).length ≤ x.type.id.index + 1) ∧
      (∀ y, x.equalWithin (x.type.id.index + 1) y = some (x == y)) ∧
      x.renderWithin (x.type.id.index + 1) = some x.render := by
  have hs := hw.sound.session
  have hr := hw.sound.registry
  refine ⟨?_, hr.wellFounded_contains, fun t => hr.not_contains_self, ?_, ?_, ?_⟩
  · intro t ht ref href
    exact ⟨hr.index_lt_of_mentions ht href, hr.consistent.exists_of_mentions ht href⟩
  · intro o ho t ht hinner
    exact ⟨(hs.registered ho).mem, ht, t.ref, hs.mentions_inner ho hinner, rfl⟩
  · intro inner os hinner htower
    exact htower.distinct hs hinner
  · intro v hv x hx
    have hwf : x.WellFormed w.session.registry := (hw.sound.held v hv).within hx
    have hdepth : x.type.id.index < x.type.id.index + 1 := Nat.lt_add_one _
    exact ⟨fun path hpath => hwf.length_le_of_nests hr hpath,
      fun y => hwf.equalWithin_eq hr hdepth y, hwf.renderWithin_eq hr hdepth⟩

/-- The option type over messages mentions the type of messages, which is older. The option that holds
the message nests two deep, as its type is the second one; and an option of such options is of a third
type. -/
theorem Reachable.references_wellFounded_messages :
    optionOfMessage.type.Mentions Registry.message.ref ∧
      Registry.message.ref.id.index < optionOfMessage.type.id.index ∧
      [writtenOption, written].IsChain EnumValue.Nests ∧
      [writtenOption, written].length ≤ writtenOption.type.id.index + 1 ∧
      writtenOption.renderWithin 2 = some writtenOption.render ∧
      ∃ o, messages.session.Tower (.enum Registry.message.ref) [optionOfMessage, o] ∧
        (optionOfMessage.fieldType == o.fieldType) = false := by
  obtain ⟨hsmaller, -, -, -, htowers, hheld⟩ := reachable_messages.references_wellFounded
  have hmentions : optionOfMessage.type.Mentions Registry.message.ref :=
    ⟨_, List.mem_cons_self, List.mem_singleton.mpr rfl⟩
  have hregistered : optionOfMessage.type ∈ messages.session.registry.types :=
    List.mem_cons_of_mem _ List.mem_cons_self
  have hoption : writtenOption ∈ messages.held := by simp [messages]
  have hpath : [writtenOption, written].IsChain EnumValue.Nests :=
    List.isChain_cons_cons.mpr ⟨List.mem_singleton.mpr rfl, List.IsChain.singleton _⟩
  obtain ⟨hlength, -, hrender⟩ := hheld _ hoption _ .self
  have hknown : messages.session.registry.Knows (.enum Registry.message.ref) :=
    ⟨Registry.message, List.mem_cons_self, rfl⟩
  -- the first request finds the option type, the second one registers a new one
  have hgiven : messages.session.optionOver (.enum Registry.message.ref)
      = (.ok optionOfMessage, messages.session) := rfl
  have htower : ∃ o, messages.session.Tower (.enum Registry.message.ref) [optionOfMessage, o] :=
    ⟨_, .cons hgiven .refl (.cons rfl .refl .nil)⟩
  obtain ⟨o, htower⟩ := htower
  have hdistinct := htowers _ _ hknown htower
  refine ⟨hmentions, (hsmaller _ hregistered _ hmentions).1, hpath, hlength [written] hpath, hrender,
    o, htower, ?_⟩
  exact List.rel_of_pairwise_cons (List.pairwise_cons.mp hdistinct).2 List.mem_cons_self

end World

end TaggedUnion
