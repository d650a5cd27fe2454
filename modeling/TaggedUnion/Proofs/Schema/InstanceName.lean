import TaggedUnion.Proofs.Schema.Reachable
import TaggedUnion.Proofs.Text.Pieces
import Mathlib.Data.List.TakeWhile

/-!
# Names of instances

The name of an instance is built from the generic's name and the texts of its arguments. How much of
that can be read off the name again?

* `FieldText`: the texts of field types, which are scalars' words, plain names and names of instances.
* `Registry.Reachable.eq_of_render_eq`: known field types have distinct texts.
* `instanceName_eq_iff`: the generic can be read off, and so can the list of arguments as one text.
* `Registry.Reachable.instanceName_eq_iff_pieces`: the arguments can be told up to the pieces that the
  separators in their names make of them; where no client has put a separator into a name, arguments
  can be told, and one registration does not get in the way of another.
* `Registry.instanceName_not_injective`: a name with a separator in it stands for two arguments.
-/

namespace TaggedUnion

open Text (Encloses pieces separator)

/-! ## Plain names -/

theorem Scalar.name_injective : Function.Injective Scalar.name := by
  intro s s' h
  cases s <;> cases s' <;> first | rfl | exact absurd h (by decide)

/-- A plain name is not empty, has no brackets in it and is not the word for a scalar. -/
theorem checkPlainName_eq_ok_iff {name : String} :
    checkPlainName name = .ok () ↔
      name ≠ "" ∧ '<' ∉ name.toList ∧ '>' ∉ name.toList ∧ ∀ s : Scalar, s.name ≠ name := by
  have hscalar : name ∈ Scalar.all.map (·.name) ↔ ∃ s : Scalar, s.name = name := by
    simp [Scalar.mem_all]
  unfold checkPlainName
  by_cases hempty : name = ""
  · simp [hempty]
  · rw [if_neg hempty]
    by_cases hreserved : '<' ∈ name.toList ∨ '>' ∈ name.toList ∨ name ∈ Scalar.all.map (·.name)
    · rw [if_pos hreserved]
      rw [hscalar] at hreserved
      simp only [reduceCtorEq, false_iff]
      grind
    · rw [if_neg hreserved]
      rw [hscalar] at hreserved
      simp only [true_iff]
      grind

theorem checkPlainName_ne_duplicateTypeName {name name' : String} :
    checkPlainName name ≠ .error (.duplicateTypeName name') := by
  unfold checkPlainName
  split_ifs <;> simp

/-- The generic can be read off the name of an instance, because no bracket is in it. What stands
between the outer brackets is all that the name says about the arguments. -/
theorem instanceName_eq_iff {g g' : String} (hg : checkPlainName g = .ok ())
    (hg' : checkPlainName g' = .ok ()) {args args' : List FieldType} :
    instanceName g args = instanceName g' args' ↔
      g = g' ∧ Text.commas (args.map (·.render)) = Text.commas (args'.map (·.render)) := by
  have hchars : ∀ (h : String) (as : List FieldType), (instanceName h as).toList
      = h.toList ++ '<' :: ((Text.commas (as.map (·.render))).toList ++ ['>']) := by
    simp [instanceName, String.toList_append]
  -- the generic ends where the first bracket stands
  have hhead : ∀ (h : String) (as : List FieldType), checkPlainName h = .ok () →
      (instanceName h as).toList.takeWhile (· != '<') = h.toList := by
    intro h as hplain
    have hopen : ∀ c ∈ h.toList, (c != '<') = true := by
      intro c hc
      rw [bne_iff_ne]
      rintro rfl
      exact (checkPlainName_eq_ok_iff.mp hplain).2.1 hc
    rw [hchars, List.takeWhile_append_of_pos hopen]
    simp
  constructor
  · intro heq
    have hgeneric : g.toList = g'.toList := by
      rw [← hhead g args hg, heq, hhead g' args' hg']
    refine ⟨String.toList_inj.mp hgeneric, ?_⟩
    have hrest := congrArg String.toList heq
    rw [hchars, hchars, hgeneric, List.append_cancel_left_eq, List.cons.injEq,
      List.append_cancel_right_eq] at hrest
    exact String.toList_inj.mp hrest.2
  · rintro ⟨rfl, hargs⟩
    unfold instanceName
    rw [hargs]

/-! ## Texts of field types -/

/-- The texts of field types: the word for a scalar, a plain name, or the name of an instance. -/
inductive FieldText : String → Prop
  | scalar (s : Scalar) : FieldText s.name
  | plain {name : String} (h : checkPlainName name = .ok ()) : FieldText name
  | generic {g : String} {parts : List String} (hg : checkPlainName g = .ok ())
      (hparts : ∀ p ∈ parts, FieldText p) : FieldText (g ++ "<" ++ Text.commas parts ++ ">")

namespace FieldText

variable {text : String}

theorem ne_empty (h : FieldText text) : text ≠ "" := by
  cases h with
  | scalar s => cases s <;> decide
  | plain h => exact (checkPlainName_eq_ok_iff.mp h).1
  | generic hg _ =>
    intro hempty
    have hlength := congrArg String.length hempty
    simp at hlength

/-- The brackets in the text of a field type close each other. Induction on how the text is made. -/
theorem encloses (h : FieldText text) : Encloses text := by
  induction h with
  | scalar s => cases s <;> decide
  | plain h =>
    obtain ⟨-, hopen, hclose, -⟩ := checkPlainName_eq_ok_iff.mp h
    exact Text.openAfter_of_plain hopen hclose 0
  | @generic g parts hg _ ih =>
    obtain ⟨-, hopen, hclose, -⟩ := checkPlainName_eq_ok_iff.mp hg
    -- the arguments close their brackets, and separators have none
    have hinner : Text.openAfter 0 (separator.intercalate (parts.map String.toList)) = some 0 := by
      refine Text.openAfter_intercalate fun p hp => ?_
      obtain ⟨part, hpart, rfl⟩ := List.mem_map.mp hp
      exact ih part hpart
    have hchars : (g ++ "<" ++ Text.commas parts ++ ">").toList
        = g.toList ++ '<' :: (separator.intercalate (parts.map String.toList) ++ ['>']) := by
      simp [Text.commas, separator, String.toList_append]
    unfold Encloses
    rw [hchars, Text.openAfter_append, Text.openAfter_of_plain hopen hclose, Option.bind_some,
      Text.openAfter_bracketed hinner]
    rfl

end FieldText

/-- What a client has chosen of the text of a field type: the name of a type, or that of a generic. -/
def FieldType.chosenName (type : FieldType) : List Char :=
  type.render.toList.takeWhile (· != '<')

/-- A text is cut only where a client has put a separator. -/
theorem FieldText.pieces_eq_singleton {text : String} (h : FieldText text)
    (hchosen : ¬ separator <:+: text.toList.takeWhile (· != '<')) :
    pieces text = [text.toList] := by
  have hall : ∀ {cs : List Char}, '<' ∉ cs → ∀ c ∈ cs, (c != '<') = true := by
    intro cs hopen c hc
    rw [bne_iff_ne]
    rintro rfl
    exact hopen hc
  cases h with
  | scalar s => cases s <;> decide
  | plain h =>
    obtain ⟨-, hopen, hclose, -⟩ := checkPlainName_eq_ok_iff.mp h
    rw [List.takeWhile_eq_self_iff.mpr (hall hopen)] at hchosen
    exact Text.pieces_eq_singleton_of_plain hopen hclose hchosen
  | @generic g parts hg hparts =>
    obtain ⟨-, hopen, hclose, -⟩ := checkPlainName_eq_ok_iff.mp hg
    have hinner : Encloses (Text.commas parts) := by
      unfold Encloses Text.commas
      rw [String.toList_intercalate]
      refine Text.openAfter_intercalate fun p hp => ?_
      obtain ⟨part, hpart, rfl⟩ := List.mem_map.mp hp
      exact (hparts part hpart).encloses
    -- what the client has chosen here is the generic, and the rest is in brackets
    have hhead : (g ++ "<" ++ Text.commas parts ++ ">").toList.takeWhile (· != '<') = g.toList := by
      rw [String.toList_append, String.toList_append, String.toList_append, List.append_assoc,
        List.append_assoc, List.takeWhile_append_of_pos (hall hopen)]
      simp
    rw [hhead] at hchosen
    exact Text.pieces_eq_singleton_of_bracketed hopen hclose hchosen hinner

namespace Registry

variable {r : Registry}

/-! ## Names in a registry -/

/-- What a registered type can be called: not as a scalar, and otherwise as the grammar of texts
says. Induction on the registrations. -/
theorem Reachable.name_registered (hr : r.Reachable) {t : EnumType} (ht : t ∈ r.types) :
    FieldText t.name ∧ ∀ s : Scalar, s.name ≠ t.name := by
  induction hr generalizing t with
  | empty => cases ht
  | register _ _ hreg ih =>
    rcases mem_types_of_enter hreg ht with hold | ⟨hplain, hinsert⟩
    · exact ih hold
    · rw [name_of_insert hinsert]
      exact ⟨.plain hplain, (checkPlainName_eq_ok_iff.mp hplain).2.2.2⟩
  | @registerInstance r _ generic args _ _ _ hargs _ hreg ih =>
    rcases mem_types_of_enter hreg ht with hold | ⟨hplain, hinsert⟩
    · exact ih hold
    · rw [name_of_insert hinsert]
      refine ⟨.generic hplain fun p hp => ?_, fun s hs => ?_⟩
      · -- an argument is a scalar, or it was registered before
        obtain ⟨arg, harg, rfl⟩ := List.mem_map.mp hp
        cases arg with
        | scalar s => exact .scalar s
        | enum ref =>
          obtain ⟨u, hu, rfl⟩ := hargs _ harg
          exact (ih hu).1
      · -- no word for a scalar has a bracket in it
        have hopen : '<' ∈ (instanceName generic args).toList := by
          simp [instanceName, String.toList_append]
        rw [← hs] at hopen
        cases s <;> exact absurd hopen (by decide)

/-- What a registry knows is written in the grammar of texts. -/
theorem Reachable.fieldText (hr : r.Reachable) {type : FieldType} (hknown : r.Knows type) :
    FieldText type.render := by
  cases type with
  | scalar s => exact .scalar s
  | enum ref =>
    obtain ⟨t, ht, rfl⟩ := hknown
    exact (hr.name_registered ht).1

theorem Consistent.eq_of_name_eq (hr : r.Consistent) {t u : EnumType} (ht : t ∈ r.types)
    (hu : u ∈ r.types) (hname : t.name = u.name) : t = u := by
  have hfind := find?_eq_some_of_nodup hr.names_nodup ht
  rw [hname, find?_eq_some_of_nodup hr.names_nodup hu] at hfind
  exact (Option.some.inj hfind).symm

/-- The text of a field type says which it is. -/
theorem Reachable.eq_of_render_eq (hr : r.Reachable) {a b : FieldType} (ha : r.Knows a)
    (hb : r.Knows b) (hab : a.render = b.render) : a = b := by
  cases a with
  | scalar s =>
    cases b with
    | scalar s' =>
      have hs : s = s' := Scalar.name_injective hab
      rw [hs]
    | enum ref =>
      obtain ⟨t, ht, rfl⟩ := hb
      exact absurd hab ((hr.name_registered ht).2 s)
  | enum ref =>
    obtain ⟨t, ht, rfl⟩ := ha
    cases b with
    | scalar s => exact absurd hab.symm ((hr.name_registered ht).2 s)
    | enum ref' =>
      obtain ⟨u, hu, rfl⟩ := hb
      have htu : t = u := hr.consistent.eq_of_name_eq ht hu hab
      rw [htu]

/-- The name of an instance says which its one argument is, if it is known to have one. -/
theorem Reachable.eq_of_instanceName_singleton_eq (hr : r.Reachable) {g : String}
    (hg : checkPlainName g = .ok ()) {a b : FieldType} (ha : r.Knows a) (hb : r.Knows b)
    (hname : instanceName g [a] = instanceName g [b]) : a = b := by
  have hcommas := ((instanceName_eq_iff hg hg).mp hname).2
  have hrender : a.render = b.render := by simpa [Text.commas] using hcommas
  exact hr.eq_of_render_eq ha hb hrender

/-- Lists of known field types whose texts are the same are the same list. -/
theorem Reachable.eq_of_map_render_eq (hr : r.Reachable) {args args' : List FieldType}
    (hargs : ∀ a ∈ args, r.Knows a) (hargs' : ∀ a ∈ args', r.Knows a)
    (hrender : args.map (·.render) = args'.map (·.render)) : args = args' := by
  induction args generalizing args' with
  | nil =>
    cases args' with
    | nil => rfl
    | cons b rest => cases hrender
  | cons a args ih =>
    cases args' with
    | nil => cases hrender
    | cons b args' =>
      obtain ⟨hhead, htail⟩ := List.cons.inj hrender
      have hab : a = b :=
        hr.eq_of_render_eq (hargs a List.mem_cons_self) (hargs' b List.mem_cons_self) hhead
      rw [hab, ih (fun c hc => hargs c (List.mem_cons_of_mem _ hc))
        (fun c hc => hargs' c (List.mem_cons_of_mem _ hc)) htail]

/-! ## One registration after another -/

/-- What an insertion fails with depends on the registry by the name in question alone. -/
theorem insert_eq_error_congr {r' : Registry} {name : String}
    (h : r.byName.contains name = r'.byName.contains name) {vs : List Variant} {e : RegistryError} :
    (r.insert name vs).1 = .error e ↔ (r'.insert name vs).1 = .error e := by
  have hvet : r.vet name vs = r'.vet name vs := by
    unfold vet
    rw [h]
  rw [insert_fst_eq_error_iff, insert_fst_eq_error_iff, hvet]

/-- A type does not get in the way of one with another name. -/
theorem registerInstance_eq_error_iff_of_ne {r' : Registry} {g : String} {args : List FieldType}
    {vs : List Variant} {t : EnumType} (hreg : r.registerInstance g args vs = (.ok t, r'))
    {g' : String} {args' : List FieldType} (hne : instanceName g args ≠ instanceName g' args')
    {vs' : List Variant} {e : RegistryError} :
    (r'.registerInstance g' args' vs').1 = .error e ↔
      (r.registerInstance g' args' vs').1 = .error e := by
  obtain ⟨-, -, -, rfl⟩ := insert_eq_ok_iff.mp (insert_of_registerInstance hreg)
  have hused : (r.byName.insert (instanceName g args) t).contains (instanceName g' args')
      = r.byName.contains (instanceName g' args') := by
    rw [Dict.contains_insert, beq_false_of_ne hne, Bool.false_or]
  unfold registerInstance enter
  cases checkPlainName g' with
  | error e' => rfl
  | ok u => exact insert_eq_error_congr hused

/-! ## When two names are equal -/

/-- Two instances have one name exactly if their generics agree and the separators in the names of
their arguments, as far as they stand outside brackets, cut the arguments into the same pieces. If no
client has put a separator into the name of a type or of a generic, there is nothing to cut: then
different generics or arguments make different names, and having registered an instance changes
nothing about whether, and how, another registration fails. -/
theorem Reachable.instanceName_eq_iff_pieces (hr : r.Reachable) {g g' : String}
    (hg : checkPlainName g = .ok ()) (hg' : checkPlainName g' = .ok ())
    {args args' : List FieldType} (hargs : ∀ a ∈ args, r.Knows a)
    (hargs' : ∀ a ∈ args', r.Knows a) :
    (instanceName g args = instanceName g' args' ↔
      g = g' ∧ args.flatMap (pieces ·.render) = args'.flatMap (pieces ·.render)) ∧
    ((∀ a ∈ args ++ args', ¬ separator <:+: a.chosenName) →
      (instanceName g args = instanceName g' args' ↔ g = g' ∧ args = args') ∧
      (¬ (g = g' ∧ args = args') → ∀ vs t r', r.registerInstance g args vs = (.ok t, r') →
        ∀ vs' e, (r'.registerInstance g' args' vs').1 = .error e ↔
          (r.registerInstance g' args' vs').1 = .error e)) := by
  have htexts : ∀ {as : List FieldType}, (∀ a ∈ as, r.Knows a) →
      ∀ p ∈ as.map (·.render), Encloses p ∧ p ≠ "" := by
    intro as has p hp
    obtain ⟨a, ha, rfl⟩ := List.mem_map.mp hp
    have htext := hr.fieldText (has a ha)
    exact ⟨htext.encloses, htext.ne_empty⟩
  have hpieces : instanceName g args = instanceName g' args' ↔
      g = g' ∧ args.flatMap (pieces ·.render) = args'.flatMap (pieces ·.render) := by
    rw [instanceName_eq_iff hg hg', Text.commas_eq_iff (htexts hargs) (htexts hargs'),
      List.flatMap_map, List.flatMap_map]
  refine ⟨hpieces, ?_⟩
  intro hchosen
  -- each argument is one piece, its text
  have hwhole : ∀ {as : List FieldType}, (∀ a ∈ as, r.Knows a) →
      (∀ a ∈ as, ¬ separator <:+: a.chosenName) →
      as.flatMap (pieces ·.render) = as.map fun a => a.render.toList := by
    intro as has hchosen
    rw [← List.flatMap_singleton' (as.map _), List.flatMap_map]
    exact List.flatMap_congr fun a ha =>
      (hr.fieldText (has a ha)).pieces_eq_singleton (hchosen a ha)
  have hnames : instanceName g args = instanceName g' args' ↔ g = g' ∧ args = args' := by
    rw [hpieces, hwhole hargs fun a ha => hchosen a (List.mem_append_left _ ha),
      hwhole hargs' fun a ha => hchosen a (List.mem_append_right _ ha)]
    constructor
    · rintro ⟨rfl, hrender⟩
      refine ⟨rfl, hr.eq_of_map_render_eq hargs hargs' ?_⟩
      rw [← List.map_inj_right (f := String.toList) fun _ _ h => String.toList_inj.mp h,
        List.map_map, List.map_map]
      exact hrender
    · rintro ⟨rfl, rfl⟩
      exact ⟨rfl, rfl⟩
  refine ⟨hnames, ?_⟩
  intro hne vs t r' hreg vs' e
  exact registerInstance_eq_error_iff_of_ne hreg fun hname => hne (hnames.mp hname)

theorem Reachable.instanceName_eq_iff_pieces_message :
    instanceName "Pair" [.scalar .int, .enum message.ref]
        ≠ instanceName "Pair" [.enum message.ref, .scalar .int] ∧
      ∀ vs t r',
        onlyMessage.registerInstance "Pair" [.scalar .int, .enum message.ref] vs = (.ok t, r') →
        ∀ vs' e,
          (r'.registerInstance "Pair" [.enum message.ref, .scalar .int] vs').1 = .error e ↔
            (onlyMessage.registerInstance "Pair" [.enum message.ref, .scalar .int] vs').1
              = .error e := by
  have hknown : onlyMessage.Knows (.enum message.ref) := ⟨message, List.mem_singleton.mpr rfl, rfl⟩
  have hpair : checkPlainName "Pair" = .ok () := rfl
  have hargs : ∀ a ∈ [FieldType.scalar .int, .enum message.ref], onlyMessage.Knows a := by
    intro a ha
    simp only [List.mem_cons, List.not_mem_nil, or_false] at ha
    rcases ha with rfl | rfl
    · trivial
    · exact hknown
  have hargs' : ∀ a ∈ [FieldType.enum message.ref, .scalar .int], onlyMessage.Knows a :=
    fun a ha => hargs a (by simpa [or_comm] using ha)
  have hchosen : ∀ a ∈ [FieldType.scalar .int, .enum message.ref]
      ++ [FieldType.enum message.ref, .scalar .int], ¬ separator <:+: a.chosenName := by
    intro a ha
    simp only [List.cons_append, List.nil_append, List.mem_cons, List.not_mem_nil, or_false] at ha
    rcases ha with rfl | rfl | rfl | rfl <;> decide
  have hne : ¬ ("Pair" = "Pair" ∧ [FieldType.scalar .int, .enum message.ref]
      = [FieldType.enum message.ref, .scalar .int]) := by simp
  obtain ⟨-, hinjective⟩ :=
    reachable_message.instanceName_eq_iff_pieces hpair hpair hargs hargs'
  obtain ⟨hnames, hregister⟩ := hinjective hchosen
  exact ⟨fun hname => hne (hnames.mp hname), hregister hne⟩

/-- A type whose name reads like two arguments. -/
def intText : EnumType where
  id := ⟨0⟩
  name := "int, text"
  variants := [⟨"Only", .unit⟩]
  index := ⟨[("Only", 0)]⟩

/-- The registry that holds this type alone. -/
def onlyIntText : Registry where
  byName := ⟨[("int, text", intText)]⟩
  nextId := 1

/-- One argument is taken for two: instances over `int` and `text` and over a type called `int, text`
have one name, and the first to be registered keeps out the other. -/
theorem instanceName_not_injective :
    onlyIntText.Reachable ∧ checkPlainName "Pair" = .ok () ∧
      onlyIntText.Knows (.enum intText.ref) ∧
      [FieldType.scalar .int, .scalar .text] ≠ [.enum intText.ref] ∧
      instanceName "Pair" [.scalar .int, .scalar .text] = instanceName "Pair" [.enum intText.ref] ∧
      ∃ t r', onlyIntText.registerInstance "Pair" [.scalar .int, .scalar .text] intText.variants
          = (.ok t, r') ∧
        (r'.registerInstance "Pair" [.enum intText.ref] intText.variants).1
          = .error (.duplicateTypeName "Pair<int, text>") := by
  have hregister : Registry.register {} "int, text" intText.variants = (.ok intText, onlyIntText) :=
    rfl
  have hdeclares : Declares {} intText.variants := by
    intro v hv type htype
    rw [List.mem_singleton.mp hv] at htype
    cases htype
  exact ⟨.register .empty hdeclares hregister, rfl, ⟨intText, List.mem_singleton.mpr rfl, rfl⟩,
    by simp, rfl, _, _, rfl, rfl⟩

end Registry

end TaggedUnion
