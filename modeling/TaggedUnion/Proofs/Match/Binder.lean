import TaggedUnion.Match.Plan
import TaggedUnion.Proofs.Value.WellFormed
import Mathlib.Data.List.Perm.Basic

/-!
# What binders accept and bind

A binder is resolved once, against the shape that an arm's variant declares, and read many times, on
values of that variant. Here is what both steps amount to, without positions settled in between.

* `Binder.Fits`: the binder names as many fields as there are by position, or each declared field
  once by name, and introduces no name twice.
* `Binder.Binds`: the entries that a binder asks for on a value, each by its field.
* `Binder.exists_resolve_iff`: a binder is resolved exactly if it fits.
* `Binder.exists_bind_of_resolve`: what is then read from a well-formed value is what the binder asks
  for; no field is missing.
-/

namespace TaggedUnion

/-! ## What binders mean -/

/-- A binder fits the shape of the variant that its arm names, or the lack of one at a wildcard. The
placeholder is no name: it may stand for any number of fields. -/
def Binder.Fits : Binder → Option Shape → Prop
  | .ignore, _ => True
  | .whole _, _ => True
  | .positional names, some (.positional types) =>
    names.length = types.length ∧ (names.filter (· != placeholder)).Nodup
  | .named pairs, some (.named declared) =>
    (pairs.map (·.1)).Perm (declared.map (·.name)) ∧
      ((pairs.map (·.2)).filter (· != placeholder)).Nodup
  | _, _ => False

/-- The four ways for a binder to fit: names of fields go with a shape of their kind. -/
theorem Binder.fits_cases {b : Binder} {shape : Option Shape} (h : b.Fits shape) :
    b = .ignore ∨ (∃ name, b = .whole name) ∨
      (∃ names types, b = .positional names ∧ shape = some (.positional types) ∧
        names.length = types.length ∧ (names.filter (· != placeholder)).Nodup) ∨
      ∃ pairs declared, b = .named pairs ∧ shape = some (.named declared) ∧
        (pairs.map (·.1)).Perm (declared.map (·.name)) ∧
        ((pairs.map (·.2)).filter (· != placeholder)).Nodup := by
  cases b with
  | ignore => exact .inl rfl
  | whole name => exact .inr (.inl ⟨name, rfl⟩)
  | positional names =>
    cases shape with
    | none => cases h
    | some s =>
      cases s with
      | unit => cases h
      | named declared => cases h
      | positional types => exact .inr (.inr (.inl ⟨names, types, rfl, rfl, h.1, h.2⟩))
  | named pairs =>
    cases shape with
    | none => cases h
    | some s =>
      cases s with
      | unit => cases h
      | positional types => cases h
      | named declared => exact .inr (.inr (.inr ⟨pairs, declared, rfl, rfl, h.1, h.2⟩))

/-- The value holds `x` in the field that its variant declares under the name `field`. -/
def EnumValue.Holds (v : EnumValue) (field : String) (x : Value) : Prop :=
  ∃ (declared : List Field) (i : Nat), v.variant.shape = .named declared ∧
    (declared[i]?).map (·.name) = some field ∧ v.fields[i]? = some x

/-- The entries that a binder asks for on a value: one for each of its names but the placeholder, in
the order of the names. -/
def Binder.Binds (v : EnumValue) : Binder → List (String × Value) → Prop
  | .ignore, entries => entries = []
  | .whole name, entries => entries = if name = placeholder then [] else [(name, .enum v)]
  | .positional names, entries =>
    List.Forall₂ (fun entry place => entry.1 = place.1 ∧ v.fields[place.2]? = some entry.2)
      entries (names.zipIdx.filter (·.1 != placeholder))
  | .named pairs, entries =>
    List.Forall₂ (fun entry pair => entry.1 = pair.2 ∧ v.Holds pair.1 entry.2)
      entries (pairs.filter (·.2 != placeholder))

/-! ## Settling places -/

/-- A place that stands for a pair: it has the pair's name, at the position of the pair's field. -/
def Placed (declared : List Field) (place : String × Nat) (pair : String × String) : Prop :=
  place.1 = pair.2 ∧ declared.findIdx? (·.name == pair.1) = some place.2

/-- Lists of which each entry goes along with one of the other have the same images, if such entries
have. -/
theorem map_eq_map_of_forall₂ {α β γ : Type} {R : α → β → Prop} {f : α → γ} {g : β → γ}
    {xs : List α} {ys : List β} (h : List.Forall₂ R xs ys) (hsame : ∀ x y, R x y → f x = g y) :
    xs.map f = ys.map g := by
  have himages : List.Forall₂ Eq (xs.map f) (ys.map g) := by
    rw [List.forall₂_map_left_iff, List.forall₂_map_right_iff]
    exact h.imp hsame
  rw [List.forall₂_eq_eq_eq] at himages
  exact himages

/-- To leave out names and then read them is to read names and then leave them out. -/
theorem filter_map_fst {α : Type} (p : String → Bool) (xs : List (String × α)) :
    (xs.filter fun x => p x.1).map (·.1) = (xs.map (·.1)).filter p := by
  rw [List.filter_map]
  rfl

/-- Places are accepted if no name but the placeholder comes twice, and the placeholder is dropped. -/
theorem distinctPlaces_eq_ok_iff {places : List (String × Nat)} {rb : ResolvedBinder} :
    distinctPlaces places = .ok rb ↔
      ((places.map (·.1)).filter (· != placeholder)).Nodup ∧
        rb = .fields (places.filter (·.1 != placeholder)) := by
  have hnames : ((places.filter (·.1 != placeholder)).map (·.1)).Nodup ↔
      ((places.map (·.1)).filter (· != placeholder)).Nodup := by
    rw [filter_map_fst (· != placeholder)]
  rw [← hnames, ← Text.firstRepeat?_eq_none_iff]
  unfold distinctPlaces
  dsimp only
  cases Text.firstRepeat? ((places.filter (·.1 != placeholder)).map (·.1)) with
  | none => simp [eq_comm]
  | some name => simp

/-- Pairs get their places when each names a declared field, no two the same, none already `seen`. -/
theorem namedPlaces_eq_ok_iff {declared : List Field} {seen : List String}
    {pairs : List (String × String)} {places : List (String × Nat)} :
    namedPlaces declared seen pairs = .ok places ↔
      List.Forall₂ (Placed declared) places pairs ∧ (pairs.map (·.1)).Nodup ∧
        ∀ pair ∈ pairs, pair.1 ∉ seen := by
  induction pairs generalizing seen places with
  | nil =>
    rw [namedPlaces, List.forall₂_nil_right_iff]
    simp [eq_comm]
  | cons pair rest ih =>
    obtain ⟨field, name⟩ := pair
    -- one pair: its field is declared and not seen yet, and the others come after it has been seen
    have hstep : namedPlaces declared seen ((field, name) :: rest) = .ok places ↔
        ∃ position tail, declared.findIdx? (·.name == field) = some position ∧ field ∉ seen ∧
          namedPlaces declared (field :: seen) rest = .ok tail ∧
          places = (name, position) :: tail := by
      rw [namedPlaces]
      cases hfind : declared.findIdx? (·.name == field) with
      | none => simp
      | some position =>
        by_cases hseen : field ∈ seen
        · simp [hseen]
        · show (if field ∈ seen then _ else _) = _ ↔ _
          rw [if_neg hseen, map_eq_ok_iff]
          constructor
          · intro h
            obtain ⟨tail, htail, rfl⟩ := h
            exact ⟨position, tail, rfl, hseen, htail, rfl⟩
          · intro h
            obtain ⟨_, tail, ⟨⟩, -, htail, rfl⟩ := h
            exact ⟨tail, htail, rfl⟩
    rw [hstep, List.forall₂_cons_right_iff]
    simp only [List.mem_cons, forall_eq_or_imp, List.map_cons, List.nodup_cons, List.mem_map,
      not_exists, not_and]
    constructor
    · intro h
      obtain ⟨position, tail, hfind, hseen, htail, rfl⟩ := h
      obtain ⟨hplaced, hnodup, hnew⟩ := ih.mp htail
      simp only [List.mem_cons, not_or] at hnew
      refine ⟨⟨(name, position), tail, ⟨rfl, hfind⟩, hplaced, rfl⟩, ⟨?_, hnodup⟩, hseen, ?_⟩
      · intro pair hpair
        exact (hnew pair hpair).1
      · intro pair hpair
        exact (hnew pair hpair).2
    · intro h
      obtain ⟨⟨⟨_, position⟩, tail, ⟨rfl, hfind⟩, hplaced, rfl⟩, ⟨hnew, hnodup⟩, hseen, hseen'⟩ := h
      refine ⟨position, tail, hfind, hseen, ih.mpr ⟨hplaced, hnodup, ?_⟩, rfl⟩
      intro pair hpair
      simp only [List.mem_cons, not_or]
      exact ⟨hnew pair hpair, hseen' pair hpair⟩

/-- All pairs have places exactly if each of them names a declared field. -/
theorem exists_placed_iff {declared : List Field} {pairs : List (String × String)} :
    (∃ places, List.Forall₂ (Placed declared) places pairs) ↔
      ∀ pair ∈ pairs, pair.1 ∈ declared.map (·.name) := by
  induction pairs with
  | nil => simp
  | cons pair rest ih =>
    -- a name has a position exactly if it is declared
    have hhead : (∃ position, declared.findIdx? (·.name == pair.1) = some position) ↔
        pair.1 ∈ declared.map (·.name) := by
      rw [← Option.isSome_iff_exists, List.findIdx?_isSome]
      simp
    simp only [List.mem_cons, forall_eq_or_imp]
    rw [← ih, ← hhead]
    constructor
    · intro h
      obtain ⟨_, hplaces⟩ := h
      obtain ⟨place, tail, hplace, htail, -⟩ := List.forall₂_cons_right_iff.mp hplaces
      exact ⟨⟨place.2, hplace.2⟩, tail, htail⟩
    · intro h
      obtain ⟨⟨position, hposition⟩, tail, htail⟩ := h
      exact ⟨(pair.2, position) :: tail, .cons ⟨rfl, hposition⟩ htail⟩

/-- Pairs that name declared fields, no two the same, and leave none out are a rearrangement of the
declaration. -/
theorem perm_declared_iff {declared : List Field} (h : (declared.map (·.name)).Nodup)
    {pairs : List (String × String)} :
    (pairs.map (·.1)).Perm (declared.map (·.name)) ↔
      (∀ pair ∈ pairs, pair.1 ∈ declared.map (·.name)) ∧ (pairs.map (·.1)).Nodup ∧
        ∀ field ∈ declared, field.name ∈ pairs.map (·.1) := by
  constructor
  · intro hperm
    refine ⟨?_, hperm.nodup_iff.mpr h, ?_⟩
    · intro pair hpair
      exact hperm.subset (List.mem_map_of_mem hpair)
    · intro field hfield
      exact hperm.symm.subset (List.mem_map_of_mem hfield)
  · intro hpairs
    obtain ⟨hdeclared, hnodup, hall⟩ := hpairs
    -- neither side repeats a name, so having the same members is enough
    rw [List.perm_ext_iff_of_nodup hnodup h]
    intro name
    constructor
    · intro hname
      obtain ⟨pair, hpair, rfl⟩ := List.mem_map.mp hname
      exact hdeclared pair hpair
    · intro hname
      obtain ⟨field, hfield, rfl⟩ := List.mem_map.mp hname
      exact hall field hfield

/-! ## Resolving -/

namespace Binder

/-- Positional binders are resolved to the positions of their names. -/
theorem resolve_positional_eq_ok_iff {names : List String} {types : List FieldType}
    {rb : ResolvedBinder} :
    (Binder.positional names).resolve (some (.positional types)) = .ok rb ↔
      names.length = types.length ∧ (names.filter (· != placeholder)).Nodup ∧
        rb = .fields (names.zipIdx.filter (·.1 != placeholder)) := by
  rw [resolve]
  by_cases hlen : names.length = types.length
  · rw [if_neg (not_not.mpr hlen), distinctPlaces_eq_ok_iff, List.zipIdx_map_fst]
    simp [hlen]
  · rw [if_pos hlen]
    simp [hlen]

/-- Named binders are resolved to the places of their pairs, if these leave no field out. -/
theorem resolve_named_eq_ok_iff {pairs : List (String × String)} {declared : List Field}
    {rb : ResolvedBinder} :
    (Binder.named pairs).resolve (some (.named declared)) = .ok rb ↔
      ∃ places, namedPlaces declared [] pairs = .ok places ∧
        (∀ field ∈ declared, field.name ∈ pairs.map (·.1)) ∧
        ((places.map (·.1)).filter (· != placeholder)).Nodup ∧
        rb = .fields (places.filter (·.1 != placeholder)) := by
  -- no declared field is found to be missing
  have hall : declared.find? (fun field => decide (field.name ∉ pairs.map (·.1))) = none ↔
      ∀ field ∈ declared, field.name ∈ pairs.map (·.1) := by
    rw [List.find?_eq_none]
    simp
  rw [resolve, bind_eq_ok_iff]
  constructor
  · intro h
    obtain ⟨places, hplaces, h⟩ := h
    cases hfind : declared.find? (fun field => decide (field.name ∉ pairs.map (·.1))) with
    | some field =>
      rw [hfind] at h
      cases h
    | none =>
      rw [hfind] at h
      exact ⟨places, hplaces, hall.mp hfind, distinctPlaces_eq_ok_iff.mp h⟩
  · intro h
    obtain ⟨places, hplaces, hfields, hdistinct⟩ := h
    refine ⟨places, hplaces, ?_⟩
    rw [hall.mpr hfields]
    exact distinctPlaces_eq_ok_iff.mpr hdistinct

/-- Places have the names that their pairs bind. -/
theorem map_fst_of_placed {declared : List Field} {places : List (String × Nat)}
    {pairs : List (String × String)} (h : List.Forall₂ (Placed declared) places pairs) :
    places.map (·.1) = pairs.map (·.2) :=
  map_eq_map_of_forall₂ h fun _ _ hplaced => hplaced.1

/-- A binder is resolved against a well-formed shape exactly if it fits the shape. -/
theorem exists_resolve_iff {b : Binder} {shape : Option Shape}
    (hwf : ∀ s, shape = some s → s.WellFormed) :
    (∃ rb, b.resolve shape = .ok rb) ↔ b.Fits shape := by
  cases b with
  | ignore => simp [resolve, Fits]
  | whole name => simp [resolve, Fits]
  | positional names =>
    cases shape with
    | none => simp [resolve, Fits]
    | some s =>
      cases s with
      | unit => simp [resolve, Fits]
      | named declared => simp [resolve, Fits]
      | positional types =>
        simp only [resolve_positional_eq_ok_iff, Fits]
        constructor
        · intro h
          obtain ⟨_, hlen, hnodup, -⟩ := h
          exact ⟨hlen, hnodup⟩
        · intro h
          exact ⟨_, h.1, h.2, rfl⟩
  | named pairs =>
    cases shape with
    | none => simp [resolve, Fits]
    | some s =>
      cases s with
      | unit => simp [resolve, Fits]
      | positional types => simp [resolve, Fits]
      | named declared =>
        have hnodup : (declared.map (·.name)).Nodup := (hwf _ rfl).2
        simp only [resolve_named_eq_ok_iff, Fits, perm_declared_iff hnodup, namedPlaces_eq_ok_iff]
        constructor
        · intro h
          obtain ⟨_, places, ⟨hplaced, hpairs, -⟩, hall, hnames, -⟩ := h
          rw [map_fst_of_placed hplaced] at hnames
          exact ⟨⟨exists_placed_iff.mp ⟨places, hplaced⟩, hpairs, hall⟩, hnames⟩
        · intro h
          obtain ⟨⟨hdeclared, hpairs, hall⟩, hnames⟩ := h
          obtain ⟨places, hplaced⟩ := exists_placed_iff.mpr hdeclared
          rw [← map_fst_of_placed hplaced] at hnames
          exact ⟨_, places, ⟨hplaced, hpairs, by simp⟩, hall, hnames, rfl⟩

end Binder

/-! ## Reading -/

/-- What is read has the names of the places and the values stored there. Induction on the places. -/
theorem readPlaces_eq_ok_iff {stored : List Value} {places : List (String × Nat)}
    {entries : List (String × Value)} :
    Plan.readPlaces stored places = .ok entries ↔
      List.Forall₂ (fun entry place => entry.1 = place.1 ∧ stored[place.2]? = some entry.2)
        entries places := by
  induction places generalizing entries with
  | nil =>
    rw [Plan.readPlaces, List.forall₂_nil_right_iff]
    simp [eq_comm]
  | cons place rest ih =>
    obtain ⟨name, position⟩ := place
    rw [Plan.readPlaces, List.forall₂_cons_right_iff]
    cases hstored : stored[position]? with
    | none => simp
    | some value =>
      show ((name, value) :: ·) <$> Plan.readPlaces stored rest = .ok entries ↔ _
      rw [map_eq_ok_iff]
      constructor
      · intro h
        obtain ⟨tail, htail, rfl⟩ := h
        exact ⟨(name, value), tail, ⟨rfl, rfl⟩, ih.mp htail, rfl⟩
      · intro h
        obtain ⟨⟨_, value'⟩, tail, ⟨rfl, hvalue⟩, htail, rfl⟩ := h
        cases hvalue
        exact ⟨tail, ih.mpr htail, rfl⟩

theorem exists_readPlaces {stored : List Value} {places : List (String × Nat)}
    (h : ∀ place ∈ places, place.2 < stored.length) :
    ∃ entries, Plan.readPlaces stored places = .ok entries := by
  induction places with
  | nil => exact ⟨[], rfl⟩
  | cons place rest ih =>
    obtain ⟨name, position⟩ := place
    obtain ⟨tail, htail⟩ := ih fun p hp => h p (List.mem_cons_of_mem _ hp)
    have hlt : position < stored.length := h (name, position) List.mem_cons_self
    refine ⟨(name, stored[position]) :: tail, ?_⟩
    rw [Plan.readPlaces, List.getElem?_eq_getElem hlt]
    show ((name, stored[position]) :: ·) <$> Plan.readPlaces stored rest = _
    rw [htail]
    rfl

/-- Entries read at the places of pairs hold the fields that the pairs name. -/
theorem holds_of_placed {v : EnumValue} {declared : List Field}
    (hshape : v.variant.shape = .named declared) (hnodup : (declared.map (·.name)).Nodup)
    {entries : List (String × Value)} {places : List (String × Nat)}
    {pairs : List (String × String)}
    (hread : List.Forall₂ (fun entry place => entry.1 = place.1 ∧ v.fields[place.2]? = some entry.2)
      entries places)
    (hplaced : List.Forall₂ (Placed declared) places pairs) :
    List.Forall₂ (fun entry pair => entry.1 = pair.2 ∧ v.Holds pair.1 entry.2) entries pairs := by
  induction hplaced generalizing entries with
  | nil => rw [List.forall₂_nil_right_iff.mp hread]; exact .nil
  | cons hplace _ ih =>
    obtain ⟨entry, tail, hentry, htail, rfl⟩ := List.forall₂_cons_right_iff.mp hread
    refine .cons ⟨hentry.1.trans hplace.1, declared, _, hshape, ?_, hentry.2⟩ (ih htail)
    exact (findIdx?_eq_some_iff_of_nodup hnodup).mp hplace.2

/-- The places of pairs are within the declared fields. -/
theorem lt_length_of_placed {declared : List Field} {places : List (String × Nat)}
    {pairs : List (String × String)} (h : List.Forall₂ (Placed declared) places pairs) :
    ∀ place ∈ places, place.2 < declared.length := by
  intro place hplace
  obtain ⟨i, hi, rfl⟩ := List.mem_iff_getElem.mp hplace
  have hfind := (h.get hi (h.length_eq ▸ hi)).2
  exact (List.findIdx?_eq_some_iff_findIdx_eq.mp hfind).1

/-- An arm that reads fields binds what it reads: the value holds the variant that is asked for. -/
theorem bind_of_readPlaces {v : EnumValue} (htype : v.type.WellFormed) {p : Plan}
    {arm : Nat} {places : List (String × Nat)} (harm : p.binders[arm]? = some (.fields places))
    {entries : List (String × Value)} (hentries : Plan.readPlaces v.fields places = .ok entries) :
    p.bind arm v = .ok ⟨v.variantName, entries⟩ := by
  have hfields : v.extractFields v.variantName = .ok v.fields :=
    (EnumValue.extractFields_eq_ok_iff htype).mpr ⟨rfl, rfl⟩
  unfold Plan.bind
  rw [harm]
  dsimp only
  rw [hfields]
  show Bindings.mk v.variantName <$> Plan.readPlaces v.fields places = _
  rw [hentries]
  rfl

namespace Binder

/-- The positions of as many names as there are fields are positions of fields. -/
theorem exists_read_positional {v : EnumValue} {names : List String}
    (hlen : names.length = v.fields.length) :
    ∃ entries, Plan.readPlaces v.fields (names.zipIdx.filter (·.1 != placeholder)) = .ok entries ∧
      (Binder.positional names).Binds v entries := by
  have hbound : ∀ place ∈ names.zipIdx.filter (·.1 != placeholder), place.2 < v.fields.length := by
    intro place hplace
    have hmem := (List.mem_filter.mp hplace).1
    have hlt := List.snd_lt_of_mem_zipIdx hmem
    omega
  obtain ⟨entries, hentries⟩ := exists_readPlaces hbound
  exact ⟨entries, hentries, readPlaces_eq_ok_iff.mp hentries⟩

/-- The places of pairs are places of the fields that the pairs name. -/
theorem exists_read_named {v : EnumValue} {declared : List Field}
    (hshape : v.variant.shape = .named declared) (hnodup : (declared.map (·.name)).Nodup)
    (hlen : v.fields.length = declared.length) {places : List (String × Nat)}
    {pairs : List (String × String)} (hplaced : List.Forall₂ (Placed declared) places pairs) :
    ∃ entries, Plan.readPlaces v.fields (places.filter (·.1 != placeholder)) = .ok entries ∧
      (Binder.named pairs).Binds v entries := by
  -- leaving out the placeholder leaves out the same places and pairs
  have hbound : List.Forall₂ (Placed declared) (places.filter (·.1 != placeholder))
      (pairs.filter (·.2 != placeholder)) := by
    refine List.rel_filter ?_ hplaced
    intro place pair hplace
    show (place.1 != placeholder) = true ↔ (pair.2 != placeholder) = true
    rw [hplace.1]
  have hlt : ∀ place ∈ places.filter (·.1 != placeholder), place.2 < v.fields.length := by
    rw [hlen]
    exact lt_length_of_placed hbound
  obtain ⟨entries, hentries⟩ := exists_readPlaces hlt
  exact ⟨entries, hentries,
    holds_of_placed hshape hnodup (readPlaces_eq_ok_iff.mp hentries) hbound⟩

/-- A resolved binder reads from a well-formed value, without fail, what the binder asks for. The
shape it was resolved against is the one of the value's variant, unless the arm is a wildcard. -/
theorem exists_bind_of_resolve {r : Registry} (hr : r.Consistent) {v : EnumValue}
    (hv : v.WellFormed r) {b : Binder} {shape : Option Shape}
    (hshape : ∀ s, shape = some s → s = v.variant.shape) {rb : ResolvedBinder}
    (hresolve : b.resolve shape = .ok rb) {p : Plan} {arm : Nat} (harm : p.binders[arm]? = some rb) :
    ∃ entries, p.bind arm v = .ok ⟨v.variantName, entries⟩ ∧ b.Binds v entries := by
  have htype : v.type.WellFormed := hr.wellFormed _ hv.registered
  have hlen := hv.length_fields
  cases b with
  | ignore =>
    cases hresolve
    refine ⟨[], ?_, rfl⟩
    unfold Plan.bind
    rw [harm]
  | whole name =>
    cases hresolve
    refine ⟨if name = placeholder then [] else [(name, .enum v)], ?_, rfl⟩
    unfold Plan.bind
    rw [harm]
    by_cases hname : name = placeholder
    · rw [if_pos hname, if_pos hname]
    · rw [if_neg hname, if_neg hname]
  | positional names =>
    cases shape with
    | none => cases hresolve
    | some s =>
      cases s with
      | unit => cases hresolve
      | named declared => cases hresolve
      | positional types =>
        obtain ⟨harity, -, rfl⟩ := resolve_positional_eq_ok_iff.mp hresolve
        rw [← hshape _ rfl] at hlen
        obtain ⟨entries, hentries, hbinds⟩ := exists_read_positional (harity.trans hlen.symm)
        exact ⟨entries, bind_of_readPlaces htype harm hentries, hbinds⟩
  | named pairs =>
    cases shape with
    | none => cases hresolve
    | some s =>
      cases s with
      | unit => cases hresolve
      | positional types => cases hresolve
      | named declared =>
        obtain ⟨places, hplaces, -, -, rfl⟩ := resolve_named_eq_ok_iff.mp hresolve
        obtain ⟨hplaced, -, -⟩ := namedPlaces_eq_ok_iff.mp hplaces
        -- the arm names the variant held, so places in the declaration are places in the stored fields
        have hvshape : v.variant.shape = .named declared := (hshape _ rfl).symm
        have hmem : v.variant ∈ v.type.variants := List.getElem_mem _
        have hshapewf := (htype.variant _ hmem).shape
        rw [hvshape] at hlen hshapewf
        have hlen' : v.fields.length = declared.length := by
          rw [hlen]
          exact List.length_map _
        obtain ⟨entries, hentries, hbinds⟩ :=
          exists_read_named hvshape hshapewf.2 hlen' hplaced
        exact ⟨entries, bind_of_readPlaces htype harm hentries, hbinds⟩

end Binder

end TaggedUnion
