import TaggedUnion.Text.Structure
import Mathlib.Data.List.Infix

/-!
# Pieces of a text

A list of parts is written with a separator between neighbours. If the parts hold separators
themselves, the list cannot be read back, but not all is lost: a separator between angle brackets
belongs to one part, and the rest of the separators cut the text into pieces in one way.

* `Text.nesting`, `Text.openAfter`: how many brackets are open, or that one too many was closed.
* `Text.Encloses`: the brackets of a text close each other.
* `Text.pieces`: what the separators outside brackets cut a text into.
* `Text.pieces_commas`: the pieces of a list of parts are those of the parts, one after the other.
* `Text.pieces_eq_singleton_of_bracketed`: brackets keep what is between them in one piece.
-/

namespace TaggedUnion.Text

/-- What `commas` writes between two neighbours. -/
def separator : List Char :=
  [',', ' ']

/-- The number of open brackets after a character, given their number before it. -/
def nesting (depth : Nat) (c : Char) : Option Nat :=
  if c = '<' then some (depth + 1)
  else if c = '>' then if depth = 0 then none else some (depth - 1)
  else some depth

/-- The number of open brackets after a text. There is none if a bracket was closed that no bracket
opened. -/
def openAfter (depth : Nat) (cs : List Char) : Option Nat :=
  cs.foldlM nesting depth

/-- The brackets of a text close each other. -/
def Encloses (s : String) : Prop :=
  openAfter 0 s.toList = some 0

instance (s : String) : Decidable (Encloses s) :=
  inferInstanceAs (Decidable (_ = _))

/-- Cuts a text at each separator that stands where no bracket is open. -/
def piecesAt : Nat → List Char → List (List Char)
  | _, [] => [[]]
  | 0, ',' :: ' ' :: cs => [] :: piecesAt 0 cs
  | depth, c :: cs => (piecesAt ((nesting depth c).getD 0) cs).modifyHead (c :: ·)

/-- The pieces of a text, of which there is at least one. -/
def pieces (s : String) : List (List Char) :=
  piecesAt 0 s.toList

/-! ## Open brackets -/

theorem openAfter_append {depth : Nat} {xs ys : List Char} :
    openAfter depth (xs ++ ys) = (openAfter depth xs).bind (openAfter · ys) :=
  List.foldlM_append

theorem openAfter_cons {depth : Nat} {c : Char} {cs : List Char} :
    openAfter depth (c :: cs) = (nesting depth c).bind (openAfter · cs) :=
  List.foldlM_cons

/-- Without brackets nothing is opened or closed. -/
theorem openAfter_of_plain {cs : List Char} (hopen : '<' ∉ cs) (hclose : '>' ∉ cs) (depth : Nat) :
    openAfter depth cs = some depth := by
  induction cs with
  | nil => rfl
  | cons c cs ih =>
    rw [List.mem_cons, not_or] at hopen hclose
    have hc : nesting depth c = some depth := by
      rw [nesting, if_neg (Ne.symm hopen.1), if_neg (Ne.symm hclose.1)]
    rw [openAfter_cons, hc]
    exact ih hopen.2 hclose.2

/-- One more open bracket before a character is one more after it. -/
theorem nesting_succ {depth after : Nat} {c : Char} (h : nesting depth c = some after) :
    nesting (depth + 1) c = some (after + 1) := by
  unfold nesting at h ⊢
  split_ifs at h ⊢ with hopen hclose hzero
  · cases h
    rfl
  · omega
  · cases h
    rw [Nat.add_sub_cancel, Nat.sub_add_cancel (by omega)]
  · cases h
    rfl

/-- A bracket that was open before stays open. -/
theorem openAfter_succ {cs : List Char} {depth after : Nat}
    (h : openAfter depth cs = some after) : openAfter (depth + 1) cs = some (after + 1) := by
  induction cs generalizing depth with
  | nil =>
    cases h
    rfl
  | cons c cs ih =>
    rw [openAfter_cons] at h
    obtain ⟨between, hc, hcs⟩ := Option.bind_eq_some_iff.mp h
    rw [openAfter_cons, nesting_succ hc]
    exact ih hcs

/-- A pair of brackets around a text that closes its own leaves nothing open. -/
theorem openAfter_bracketed {cs : List Char} (h : openAfter 0 cs = some 0) (rest : List Char) :
    openAfter 0 ('<' :: (cs ++ '>' :: rest)) = openAfter 0 rest := by
  show openAfter 1 (cs ++ '>' :: rest) = _
  rw [openAfter_append, openAfter_succ h]
  rfl

/-- Parts whose brackets close each other make such a text. -/
theorem openAfter_intercalate {parts : List (List Char)}
    (h : ∀ p ∈ parts, openAfter 0 p = some 0) :
    openAfter 0 (separator.intercalate parts) = some 0 := by
  induction parts with
  | nil => rfl
  | cons p rest ih =>
    have hp : openAfter 0 p = some 0 := h p List.mem_cons_self
    cases rest with
    | nil =>
      rw [List.intercalate_singleton]
      exact hp
    | cons q rest =>
      have hrest := ih fun q hq => h q (List.mem_cons_of_mem _ hq)
      rw [List.intercalate_cons_cons, openAfter_append, openAfter_append, hp]
      exact hrest

/-! ## Pieces -/

theorem piecesAt_ne_nil (depth : Nat) (cs : List Char) : piecesAt depth cs ≠ [] := by
  fun_induction piecesAt depth cs with
  | case1 => simp
  | case2 => simp
  | case3 depth c cs _ ih =>
    intro hnil
    rw [List.modifyHead_eq_nil_iff] at hnil
    exact ih hnil

/-- A character in front of the first piece is one in front of the whole text. -/
theorem intercalate_modifyHead_cons {pieces : List (List Char)} (h : pieces ≠ []) (c : Char) :
    separator.intercalate (pieces.modifyHead (c :: ·)) = c :: separator.intercalate pieces := by
  cases pieces with
  | nil => exact absurd rfl h
  | cons p rest =>
    cases rest with
    | nil => simp
    | cons q rest => simp

/-- Nothing is lost: the pieces make up the text. -/
theorem intercalate_piecesAt (depth : Nat) (cs : List Char) :
    separator.intercalate (piecesAt depth cs) = cs := by
  fun_induction piecesAt depth cs with
  | case1 => rfl
  | case2 cs ih =>
    obtain ⟨p, rest, hpieces⟩ := List.exists_cons_of_ne_nil (piecesAt_ne_nil 0 cs)
    rw [hpieces] at ih ⊢
    rw [List.intercalate_cons_cons, ih]
    rfl
  | case3 depth c cs _ ih =>
    rw [intercalate_modifyHead_cons (piecesAt_ne_nil _ cs), ih]

/-- A separator outside brackets parts the pieces before it from those after it. -/
theorem piecesAt_append_separator {depth : Nat} {cs : List Char}
    (h : openAfter depth cs = some 0) (rest : List Char) :
    piecesAt depth (cs ++ separator ++ rest) = piecesAt depth cs ++ piecesAt 0 rest := by
  fun_induction piecesAt depth cs with
  | case1 depth =>
    cases h
    rfl
  | case2 cs ih =>
    have hcs : openAfter 0 cs = some 0 := h
    show [] :: piecesAt 0 (cs ++ separator ++ rest) = _
    rw [ih hcs]
    rfl
  | case3 depth c cs hseparator ih =>
    rw [openAfter_cons] at h
    obtain ⟨between, hc, hcs⟩ := Option.bind_eq_some_iff.mp h
    rw [hc, Option.getD_some] at ih ⊢
    obtain ⟨p, before, hpieces⟩ := List.exists_cons_of_ne_nil (piecesAt_ne_nil between cs)
    -- `c` and what follows do not make a separator, also where the one after the text comes next
    have hnext : ∀ tail, depth = 0 → c = ',' → cs ++ separator ++ rest = ' ' :: tail → False := by
      intro tail hdepth hcomma htail
      cases cs with
      | nil => cases htail
      | cons d ds =>
        cases htail
        exact hseparator ds hdepth hcomma rfl
    rw [List.cons_append, List.cons_append, piecesAt.eq_3 _ _ _ hnext, hc, Option.getD_some,
      ih hcs, hpieces]
    rfl

/-- The pieces of a list of parts, each of which closes its brackets. -/
theorem pieces_commas {parts : List String} (h : ∀ p ∈ parts, Encloses p) (hne : parts ≠ []) :
    pieces (commas parts) = parts.flatMap pieces := by
  unfold pieces commas
  rw [String.toList_intercalate]
  show piecesAt 0 (separator.intercalate (parts.map String.toList)) = _
  induction parts with
  | nil => exact absurd rfl hne
  | cons p rest ih =>
    have hp : openAfter 0 p.toList = some 0 := h p List.mem_cons_self
    cases rest with
    | nil => simp
    | cons q rest =>
      have hrest := ih (fun q hq => h q (List.mem_cons_of_mem _ hq)) (List.cons_ne_nil q rest)
      rw [List.map_cons] at hrest
      rw [List.map_cons, List.map_cons, List.intercalate_cons_cons, piecesAt_append_separator hp,
        hrest]
      rfl

/-- Lists of parts that have the same pieces are written alike, and the converse holds as well. A part
has a character, so that no list is mistaken for the empty one. -/
theorem commas_eq_iff {parts parts' : List String} (h : ∀ p ∈ parts, Encloses p ∧ p ≠ "")
    (h' : ∀ p ∈ parts', Encloses p ∧ p ≠ "") :
    commas parts = commas parts' ↔ parts.flatMap pieces = parts'.flatMap pieces := by
  -- only the empty list has an empty text, and only it has no pieces
  have hnil : ∀ {qs : List String}, (∀ p ∈ qs, Encloses p ∧ p ≠ "") →
      (commas qs = "" ↔ qs = []) ∧ (qs.flatMap pieces = [] ↔ qs = []) := by
    intro qs hqs
    cases qs with
    | nil => simp [commas]
    | cons q qs =>
      have hq : q ≠ "" := (hqs q List.mem_cons_self).2
      have hpieces : pieces q ≠ [] := piecesAt_ne_nil _ _
      refine ⟨?_, by simp [hpieces]⟩
      cases qs with
      | nil => simp [commas, hq]
      | cons q' qs => simp [commas]
  by_cases hparts : parts = []
  · subst hparts
    have hnil' := hnil h'
    constructor
    · intro heq
      rw [hnil'.1.mp heq.symm]
    · intro heq
      rw [hnil'.2.mp heq.symm]
  · by_cases hparts' : parts' = []
    · subst hparts'
      have hnil := hnil h
      constructor
      · intro heq
        rw [hnil.1.mp heq]
      · intro heq
        rw [hnil.2.mp heq]
    · rw [← pieces_commas (fun p hp => (h p hp).1) hparts,
        ← pieces_commas (fun p hp => (h' p hp).1) hparts']
      constructor
      · intro heq
        rw [heq]
      · intro heq
        rw [← String.toList_inj, ← intercalate_piecesAt 0 (commas parts).toList,
          ← intercalate_piecesAt 0 (commas parts').toList]
        -- the pieces make up the text again
        exact congrArg separator.intercalate heq

/-! ## Texts in one piece -/

/-- Between brackets there is nothing to cut, and the text ends with the last of them. -/
theorem piecesAt_succ_closed {depth : Nat} {cs : List Char} (h : openAfter depth cs = some 0) :
    piecesAt (depth + 1) (cs ++ ['>']) = [cs ++ ['>']] := by
  induction cs generalizing depth with
  | nil =>
    cases h
    rfl
  | cons c cs ih =>
    rw [openAfter_cons] at h
    obtain ⟨between, hc, hcs⟩ := Option.bind_eq_some_iff.mp h
    rw [List.cons_append, piecesAt.eq_3 _ _ _ (by simp), nesting_succ hc, Option.getD_some, ih hcs]
    rfl

/-- A text without brackets and separators runs into whatever follows it, unless that completes a
separator. -/
theorem piecesAt_plain_append {cs rest : List Char} (hopen : '<' ∉ cs) (hclose : '>' ∉ cs)
    (hseparator : ¬ separator <:+: cs) (hrest : rest.head? ≠ some ' ') :
    piecesAt 0 (cs ++ rest) = (piecesAt 0 rest).modifyHead (cs ++ ·) := by
  induction cs with
  | nil =>
    show piecesAt 0 rest = (piecesAt 0 rest).modifyHead id
    rw [List.modifyHead_id, id]
  | cons c cs ih =>
    rw [List.mem_cons, not_or] at hopen hclose
    have hc : nesting 0 c = some 0 := by
      rw [nesting, if_neg (Ne.symm hopen.1), if_neg (Ne.symm hclose.1)]
    have hcs : ¬ separator <:+: cs :=
      fun hcs => hseparator (hcs.trans (List.infix_cons List.infix_rfl))
    -- `c` starts no separator: not in the text, and not with what follows it
    have hnext : ∀ tail, (0 : Nat) = 0 → c = ',' → cs ++ rest = ' ' :: tail → False := by
      rintro tail - rfl htail
      cases cs with
      | nil =>
        rw [List.nil_append] at htail
        exact hrest (by rw [htail]; rfl)
      | cons d ds =>
        cases htail
        exact hseparator ⟨[], ds, rfl⟩
    rw [List.cons_append, piecesAt.eq_3 _ _ _ hnext, hc, Option.getD_some,
      ih hopen.2 hclose.2 hcs, List.modifyHead_modifyHead]
    rfl

/-- A text without brackets and separators is one piece. -/
theorem pieces_eq_singleton_of_plain {s : String} (hopen : '<' ∉ s.toList) (hclose : '>' ∉ s.toList)
    (hseparator : ¬ separator <:+: s.toList) : pieces s = [s.toList] := by
  have happend : piecesAt 0 (s.toList ++ []) = (piecesAt 0 []).modifyHead (s.toList ++ ·) :=
    piecesAt_plain_append hopen hclose hseparator (by simp)
  rw [List.append_nil] at happend
  rw [pieces, happend]
  simp [piecesAt]

/-- Brackets keep what they enclose in one piece. -/
theorem pieces_eq_singleton_of_bracketed {s inner : String} (hopen : '<' ∉ s.toList)
    (hclose : '>' ∉ s.toList) (hseparator : ¬ separator <:+: s.toList) (hinner : Encloses inner) :
    pieces (s ++ "<" ++ inner ++ ">") = [(s ++ "<" ++ inner ++ ">").toList] := by
  have htoList : (s ++ "<" ++ inner ++ ">").toList
      = s.toList ++ '<' :: (inner.toList ++ ['>']) := by
    simp [String.toList_append]
  have hbracketed : piecesAt 0 ('<' :: (inner.toList ++ ['>']))
      = ['<' :: (inner.toList ++ ['>'])] := by
    show (piecesAt 1 (inner.toList ++ ['>'])).modifyHead ('<' :: ·) = _
    rw [piecesAt_succ_closed hinner]
    rfl
  rw [pieces, htoList, piecesAt_plain_append hopen hclose hseparator (by simp), hbracketed]
  rfl

end TaggedUnion.Text
