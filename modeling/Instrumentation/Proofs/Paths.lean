import Mathlib.Data.List.Basic
import Instrumentation.Path

/-!
Where paths lead. A path leads from a place to the place that its components name one after the
other; joining paths is going on from where the first one leads, and what is left after a leading
part leads on from there.
-/
namespace Instrumentation

namespace Text

variable {sep : Char}

theorem pieces_ne_nil (sep : Char) (s : List Char) : pieces sep s ≠ [] := by
  cases s with
  | nil => simp [pieces]
  | cons c s =>
    rw [pieces]
    split
    · simp
    · split <;> simp

theorem pieces_cons_of_ne {c : Char} (h : c ≠ sep) (s : List Char) :
    ∃ p ps, pieces sep s = p :: ps ∧ pieces sep (c :: s) = (c :: p) :: ps := by
  cases hs : pieces sep s with
  | nil => exact absurd hs (pieces_ne_nil sep s)
  | cons p ps => exact ⟨p, ps, rfl, by rw [pieces, if_neg h, hs]⟩

/-- A separator ends the pieces before it. -/
theorem pieces_append (s t : List Char) :
    pieces sep (s ++ sep :: t) = pieces sep s ++ pieces sep t := by
  induction s with
  | nil => simp [pieces]
  | cons c s ih =>
    by_cases hc : c = sep
    · simp [pieces, hc, ih]
    · obtain ⟨p, ps, hs, hcs⟩ := pieces_cons_of_ne hc s
      rw [hcs, List.cons_append, pieces, if_neg hc, ih, hs]
      rfl

theorem pieces_of_not_mem {s : List Char} (h : sep ∉ s) : pieces sep s = [s] := by
  induction s with
  | nil => rfl
  | cons c s ih =>
    have hc : c ≠ sep := by
      intro he
      exact h (by simp [he])
    rw [pieces, if_neg hc, ih (fun hs => h (List.mem_cons_of_mem c hs))]

theorem not_mem_of_mem_pieces {s p : List Char} (h : p ∈ pieces sep s) : sep ∉ p := by
  induction s generalizing p with
  | nil => simp_all [pieces]
  | cons c s ih =>
    by_cases hc : c = sep
    · simp only [pieces, hc, if_true, List.mem_cons] at h
      rcases h with rfl | h
      · simp
      · exact ih h
    · obtain ⟨q, qs, hs, hcs⟩ := pieces_cons_of_ne hc s
      rw [hcs, List.mem_cons] at h
      rcases h with rfl | h
      · have hq : sep ∉ q := ih (by simp [hs])
        simpa [Ne.symm hc] using hq
      · exact ih (by simp [hs, h])

/-- Pieces with the separator between neighbours make up the text. -/
theorem intercalate_pieces (sep : Char) (s : List Char) : [sep].intercalate (pieces sep s) = s := by
  induction s with
  | nil => rfl
  | cons c s ih =>
    by_cases hc : c = sep
    · simp [pieces, hc, List.intercalate_cons_of_ne_nil (pieces_ne_nil sep s), ih]
    · obtain ⟨p, ps, hs, hcs⟩ := pieces_cons_of_ne hc s
      rw [hs] at ih
      rw [hcs, ← ih]
      cases ps <;> simp

theorem pieces_intercalate {ps : List (List Char)} (hne : ps ≠ []) (hps : ∀ p ∈ ps, sep ∉ p) :
    pieces sep ([sep].intercalate ps) = ps := by
  induction ps with
  | nil => exact absurd rfl hne
  | cons p ps ih =>
    by_cases he : ps = []
    · subst he
      simpa using pieces_of_not_mem (hps p (by simp))
    · have hps' := ih he (fun q hq => hps q (List.mem_cons_of_mem p hq))
      rw [List.intercalate_cons_of_ne_nil he, List.append_assoc, List.singleton_append,
        pieces_append, pieces_of_not_mem (hps p (by simp)), hps']
      rfl

theorem toList_joined (parts : List String) :
    (joined "/" parts).toList = ['/'].intercalate (parts.map String.toList) := by
  induction parts with
  | nil => rfl
  | cons s rest ih =>
    cases rest with
    | nil => simp [joined]
    | cons u rest => simp [joined, ih]

end Text

namespace Path

/-- The components that a text leads through. -/
def stepsIn (cs : List Char) : List PathComponent :=
  (Text.pieces '/' cs).filterMap (component? false)

/-- What a text starts with before its steps: the root, or a dot. -/
def headOf (cs : List Char) : List PathComponent :=
  if cs.head? == some '/' then [.root]
  else if (Text.pieces '/' cs).head? = some ['.'] then [.here] else []

/-- The components of pieces, the first of which starts at an index. -/
def locatedFrom (isFirst : Bool) (start : Nat) (ps : List (List Char)) : List Located :=
  (piecesFrom start ps).filterMap fun (start, piece) =>
    (component? (start == 0 && isFirst) piece).map fun c => ⟨c, start, start + piece.length⟩

theorem located_eq (p : Path) :
    p.located = (if p.isAbsolute then [⟨.root, 0, 1⟩] else []) ++
      locatedFrom (!p.isAbsolute) 0 (Text.pieces '/' p.text.toList) := rfl

@[simp] theorem locatedFrom_nil (isFirst : Bool) (start : Nat) :
    locatedFrom isFirst start [] = [] :=
  rfl

theorem locatedFrom_cons (isFirst : Bool) (start : Nat) (p : List Char) (ps : List (List Char)) :
    locatedFrom isFirst start (p :: ps) =
      ((component? (start == 0 && isFirst) p).map fun c => ⟨c, start, start + p.length⟩).toList ++
        locatedFrom isFirst (start + p.length + 1) ps := by
  simp only [locatedFrom, piecesFrom, List.filterMap_cons]
  cases component? (start == 0 && isFirst) p <;> rfl

/-- Behind the first piece, a dot stands for nothing. -/
theorem map_component_locatedFrom (isFirst : Bool) {start : Nat} (hs : 0 < start)
    (ps : List (List Char)) :
    (locatedFrom isFirst start ps).map Located.component = ps.filterMap (component? false) := by
  induction ps generalizing start with
  | nil => rfl
  | cons p ps ih =>
    have hne : (start == 0) = false := by simp; omega
    rw [locatedFrom_cons, List.map_append, ih (by omega), List.filterMap_cons, hne, Bool.false_and]
    cases component? false p <;> rfl

theorem map_component_locatedFrom_cons (isFirst : Bool) (start : Nat) (p : List Char)
    (ps : List (List Char)) :
    (locatedFrom isFirst start (p :: ps)).map Located.component =
      (component? (start == 0 && isFirst) p).toList ++ ps.filterMap (component? false) := by
  rw [locatedFrom_cons, List.map_append, map_component_locatedFrom isFirst (by omega)]
  cases component? (start == 0 && isFirst) p <;> rfl

theorem component?_of_ne_dot {p : List Char} (h : p ≠ ['.']) (isFirst : Bool) :
    component? isFirst p = component? false p := by
  unfold component?
  split <;> simp_all

theorem components_eq (p : Path) : p.components = headOf p.text.toList ++ stepsIn p.text.toList := by
  unfold components
  rw [located_eq, List.map_append, headOf, stepsIn]
  by_cases habs : p.text.toList.head? = some '/'
  · obtain ⟨cs, hcs⟩ : ∃ cs, p.text.toList = '/' :: cs := by
      cases hp : p.text.toList with
      | nil => simp [hp] at habs
      | cons c cs => simp_all
    have hpieces : Text.pieces '/' p.text.toList = [] :: Text.pieces '/' cs := by
      simp [hcs, Text.pieces]
    rw [hpieces, map_component_locatedFrom_cons]
    simp [isAbsolute, habs, component?, List.filterMap_cons]
  · obtain ⟨q, qs, hq⟩ := List.exists_cons_of_ne_nil (Text.pieces_ne_nil '/' p.text.toList)
    rw [hq, map_component_locatedFrom_cons]
    by_cases hdot : q = ['.']
    · simp [isAbsolute, habs, hdot, component?]
    · simp [isAbsolute, habs, hdot, component?_of_ne_dot hdot, List.filterMap_cons]
      cases component? false q <;> rfl

/-- The length of pieces with a separator after each. -/
def width : List (List Char) → Nat
  | [] => 0
  | p :: ps => p.length + 1 + width ps

theorem width_append (ps qs : List (List Char)) : width (ps ++ qs) = width ps + width qs := by
  induction ps with
  | nil => simp [width]
  | cons p ps ih =>
    simp only [List.cons_append, width, ih]
    omega

theorem drop_width (before after : List (List Char)) (h : after ≠ []) :
    (['/'].intercalate (before ++ after)).drop (width before) = ['/'].intercalate after := by
  induction before with
  | nil => simp [width]
  | cons p before ih =>
    have hdrop : (p ++ ['/']).length = p.length + 1 := by simp
    rw [List.cons_append, List.intercalate_cons_of_ne_nil (by simp [h])]
    rw [width, ← List.drop_drop, ← hdrop, List.drop_left, ih]

theorem take_width (before : List (List Char)) (p : List Char) (after : List (List Char)) :
    (['/'].intercalate (before ++ p :: after)).take (width before + p.length) =
      ['/'].intercalate (before ++ [p]) := by
  induction before with
  | nil => cases after <;> simp [width]
  | cons q before ih =>
    have hlen : width (q :: before) + p.length = (q ++ ['/']).length + (width before + p.length) := by
      simp [width]
      omega
    rw [List.cons_append, List.cons_append, List.intercalate_cons_of_ne_nil (by simp),
      List.intercalate_cons_of_ne_nil (by simp), hlen, List.take_length_add_append, ih]

/-- What is left of located components starts with one of the pieces. -/
theorem drop_locatedFrom (isFirst : Bool) (start n : Nat) (ps : List (List Char)) :
    (locatedFrom isFirst start ps).drop n = [] ∨
    ∃ before p after c, ps = before ++ p :: after ∧
      component? (start + width before == 0 && isFirst) p = some c ∧
      (locatedFrom isFirst start ps).drop n =
        locatedFrom isFirst (start + width before) (p :: after) := by
  induction ps generalizing start n with
  | nil => exact .inl (by simp)
  | cons p ps ih =>
    -- one piece further, with one component less to drop if the piece is one
    have next (k : Nat) (h : (locatedFrom isFirst start (p :: ps)).drop n =
        (locatedFrom isFirst (start + p.length + 1) ps).drop k) :
        (locatedFrom isFirst start (p :: ps)).drop n = [] ∨
        ∃ before q after c, p :: ps = before ++ q :: after ∧
          component? (start + width before == 0 && isFirst) q = some c ∧
          (locatedFrom isFirst start (p :: ps)).drop n =
            locatedFrom isFirst (start + width before) (q :: after) := by
      rcases ih (start + p.length + 1) k with hnil | ⟨before, q, after, c, rfl, hc, hdrop⟩
      · exact .inl (h.trans hnil)
      · have hwidth : start + p.length + 1 + width before = start + width (p :: before) := by
          simp [width]
          omega
        rw [hwidth] at hc hdrop
        exact .inr ⟨p :: before, q, after, c, rfl, hc, h.trans hdrop⟩
    cases hc : component? (start == 0 && isFirst) p with
    | none => exact next n (by simp [locatedFrom_cons, hc])
    | some c =>
      cases n with
      | zero => exact .inr ⟨[], p, ps, c, rfl, by simpa [width] using hc, by simp [width]⟩
      | succ n => exact next n (by simp [locatedFrom_cons, hc])

/-- The last of located components is one of the pieces, and those behind it are none. -/
theorem getLast?_locatedFrom (isFirst : Bool) (start : Nat) (ps : List (List Char)) :
    locatedFrom isFirst start ps = [] ∨
    ∃ before p after c, ps = before ++ p :: after ∧
      (locatedFrom isFirst start ps).getLast? =
        some ⟨c, start + width before, start + width before + p.length⟩ ∧
      locatedFrom isFirst start ps = locatedFrom isFirst start (before ++ [p]) := by
  induction ps generalizing start with
  | nil => exact .inl rfl
  | cons p ps ih =>
    rcases ih (start + p.length + 1) with hnil | ⟨before, q, after, c, rfl, hlast, heq⟩
    · cases hc : component? (start == 0 && isFirst) p with
      | none => exact .inl (by simp [locatedFrom_cons, hc, hnil])
      | some c =>
        refine .inr ⟨[], p, ps, c, rfl, ?_, ?_⟩
        · simp [locatedFrom_cons, hc, hnil, width]
        · simp [locatedFrom_cons, hc, hnil]
    · have hwidth : start + p.length + 1 + width before = start + width (p :: before) := by
        simp [width]
        omega
      rw [hwidth] at hlast
      refine .inr ⟨p :: before, q, after, c, rfl, ?_, ?_⟩
      · rw [locatedFrom_cons, List.getLast?_append, hlast]
        rfl
      · rw [locatedFrom_cons, heq, List.cons_append, locatedFrom_cons]

/-- A piece that is a component is one wherever it stands. -/
theorem component?_true_of_some {isFirst : Bool} {p : List Char} {c : PathComponent}
    (h : component? isFirst p = some c) : component? true p = some c := by
  by_cases hdot : p = ['.']
  · subst hdot
    cases isFirst <;> simp_all [component?]
  · rw [component?_of_ne_dot hdot] at h ⊢
    exact h

/-- The text of pieces, the first of which is a component, has their components. -/
theorem components_intercalate {isFirst : Bool} {start : Nat} {p : List Char}
    {ps : List (List Char)} {c : PathComponent} (hslash : ∀ q ∈ p :: ps, '/' ∉ q)
    (hc : component? (start == 0 && isFirst) p = some c) :
    (⟨String.ofList (['/'].intercalate (p :: ps))⟩ : Path).components =
      (locatedFrom isFirst start (p :: ps)).map Located.component := by
  have hne : p ≠ [] := by
    rintro rfl
    simp [component?] at hc
  have habs : (⟨String.ofList (['/'].intercalate (p :: ps))⟩ : Path).isAbsolute = false := by
    obtain ⟨d, ds, rfl⟩ := List.exists_cons_of_ne_nil hne
    have hd : d ≠ '/' := by
      intro he
      exact hslash (d :: ds) (by simp) (by simp [he])
    cases ps <;> simp [isAbsolute, hd]
  unfold components
  rw [located_eq, habs, String.toList_ofList, Text.pieces_intercalate (by simp) hslash]
  simp [map_component_locatedFrom_cons, hc, component?_true_of_some hc]

/-- Behind its root, what is left of the components of a path is left of its pieces. -/
theorem exists_drop_located {p : Path} {k : Nat} (hroot : .root ∉ p.components.drop k) :
    ∃ n, p.located.drop k =
      (locatedFrom (!p.isAbsolute) 0 (Text.pieces '/' p.text.toList)).drop n := by
  cases habs : p.isAbsolute with
  | false => exact ⟨k, by simp [located_eq, habs]⟩
  | true =>
    cases k with
    | zero =>
      rw [components, located_eq, habs] at hroot
      simp at hroot
    | succ n => exact ⟨n, by simp [located_eq, habs]⟩

/-- The text of some of the pieces of a text, without the slashes before and behind them. -/
theorem drop_take_pieces {text : List Char} {before inner behind : List (List Char)} {r : List Char}
    (h : Text.pieces '/' text = before ++ (inner ++ r :: behind)) :
    (text.take (width before + width inner + r.length)).drop (width before) =
      ['/'].intercalate (inner ++ [r]) := by
  have htext := Text.intercalate_pieces '/' text
  rw [h, ← List.append_assoc] at htext
  rw [← htext, ← width_append, take_width, List.append_assoc, drop_width _ _ (by simp)]

/-- What is left of a path after a leading part has the components that are left. -/
theorem components_strip {p base rest : Path} (h : p.strip? base = some rest)
    (hroot : .root ∉ p.components.drop base.components.length) :
    rest.components = p.components.drop base.components.length := by
  unfold strip? at h
  split at h
  case isFalse => cases h
  obtain ⟨n, hdrop⟩ := exists_drop_located hroot
  have hleft : p.components.drop base.components.length =
      (p.located.drop base.components.length).map Located.component := by
    simp [components]
  rw [hleft, hdrop]
  rw [hdrop] at h
  rcases drop_locatedFrom (!p.isAbsolute) 0 n (Text.pieces '/' p.text.toList) with
    hnil | ⟨before, q, after, c, hps, hc, hfirst⟩
  · rw [hnil] at h ⊢
    simp only [List.head?_nil, Option.some.injEq] at h
    subst h
    rfl
  rw [Nat.zero_add] at hc hfirst
  rw [hfirst] at h ⊢
  have hhead : (locatedFrom (!p.isAbsolute) (width before) (q :: after)).head? =
      some ⟨c, width before, width before + q.length⟩ := by
    simp [locatedFrom_cons, hc]
  rcases getLast?_locatedFrom (!p.isAbsolute) (width before) (q :: after) with
    hnil | ⟨inner, r, behind, c', hqs, hlast, heq⟩
  · simp [hnil] at hhead
  simp only [hhead, hlast, Option.some.injEq] at h
  rw [← h, heq]
  -- What is left starts with the first of the pieces that are left, and ends with the last one.
  obtain ⟨qs, hinner⟩ : ∃ qs, inner ++ [r] = q :: qs := by
    cases inner with
    | nil => exact ⟨[], by simp at hqs; simp [hqs.1]⟩
    | cons x inner => exact ⟨inner ++ [r], by simp at hqs; simp [hqs.1]⟩
  rw [hqs] at hps
  rw [between, drop_take_pieces hps, hinner]
  refine components_intercalate (fun x hx => ?_) hc
  refine Text.not_mem_of_mem_pieces (s := p.text.toList) ?_
  rw [← hinner] at hx
  rw [hps]
  rcases List.mem_append.mp hx with hx | hx
  · simp [hx]
  · simp [List.mem_singleton.mp hx]

theorem exists_strip {p base : Path} (h : p.startsWith base = true) :
    ∃ rest, p.strip? base = some rest := by
  unfold strip?
  rw [if_pos h]
  dsimp only
  split <;> exact ⟨_, rfl⟩

theorem locatedFrom_append (isFirst : Bool) (start : Nat) (ps qs : List (List Char)) :
    locatedFrom isFirst start (ps ++ qs) =
      locatedFrom isFirst start ps ++ locatedFrom isFirst (start + width ps) qs := by
  induction ps generalizing start with
  | nil => rfl
  | cons p ps ih =>
    rw [List.cons_append, locatedFrom_cons, locatedFrom_cons, ih, List.append_assoc, width,
      Nat.add_assoc, Nat.add_assoc, Nat.add_assoc]

/-- A located component is one of the pieces, and those before it are of the pieces before it. -/
theorem exists_of_locatedFrom_eq {isFirst : Bool} {start : Nat} {ps : List (List Char)}
    {before after : List Located} {l : Located}
    (h : locatedFrom isFirst start ps = before ++ l :: after) :
    ∃ qs p rest, ps = qs ++ p :: rest ∧ locatedFrom isFirst start qs = before ∧
      component? (start + width qs == 0 && isFirst) p = some l.component ∧
      l.stop = start + width qs + p.length := by
  induction ps generalizing start before with
  | nil => simp at h
  | cons p ps ih =>
    rw [locatedFrom_cons] at h
    -- one piece further, with what that piece gives in front
    have next (init : List Located)
        (hrest : locatedFrom isFirst (start + p.length + 1) ps = init ++ l :: after) :
        ∃ qs q rest, p :: ps = qs ++ q :: rest ∧ locatedFrom isFirst start qs =
            ((component? (start == 0 && isFirst) p).map
              fun c => ⟨c, start, start + p.length⟩).toList ++ init ∧
          component? (start + width qs == 0 && isFirst) q = some l.component ∧
          l.stop = start + width qs + q.length := by
      obtain ⟨qs, q, rest, rfl, hqs, hq, hstop⟩ := ih hrest
      have hwidth : start + p.length + 1 + width qs = start + width (p :: qs) := by
        simp [width]
        omega
      rw [hwidth] at hq hstop
      exact ⟨p :: qs, q, rest, rfl, by rw [locatedFrom_cons, hqs], hq, hstop⟩
    cases hc : component? (start == 0 && isFirst) p with
    | none =>
      rw [hc] at h next
      exact next before h
    | some c =>
      rw [hc] at h next
      cases before with
      | nil =>
        obtain ⟨rfl, -⟩ := List.cons.inj h
        exact ⟨[], p, ps, rfl, rfl, by simpa [width] using hc, by simp [width]⟩
      | cons b before =>
        obtain ⟨rfl, hrest⟩ := List.cons.inj h
        exact next before hrest

/-- The text up to the end of a component that is no root has the components up to it. -/
theorem components_between_piece {path : Path} {init after : List Located} {l : Located}
    (h : locatedFrom (!path.isAbsolute) 0 (Text.pieces '/' path.text.toList) = init ++ l :: after) :
    (path.between 0 l.stop).components =
      ((if path.isAbsolute then [(⟨.root, 0, 1⟩ : Located)] else []) ++ init ++ [l]).map
        Located.component := by
  have hslash : ∀ q ∈ Text.pieces '/' path.text.toList, '/' ∉ q := fun q => Text.not_mem_of_mem_pieces
  have htext := Text.intercalate_pieces '/' path.text.toList
  obtain ⟨qs, p, rest, hpieces, hqs, hp, hstop⟩ := exists_of_locatedFrom_eq h
  have hne : p ≠ [] := by
    rintro rfl
    simp [component?] at hp
  rw [hpieces] at htext hslash
  have hbetween : (path.between 0 l.stop).text.toList = ['/'].intercalate (qs ++ [p]) := by
    rw [between, String.toList_ofList, List.drop_zero, ← htext, hstop, Nat.zero_add, take_width]
  have habs : (path.between 0 l.stop).isAbsolute = path.isAbsolute := by
    have hpos : l.stop ≠ 0 := by
      have := List.length_pos_iff.mpr hne
      omega
    rw [isAbsolute, isAbsolute, between, String.toList_ofList, List.drop_zero, List.head?_take,
      if_neg hpos]
  have hslash' : ∀ q ∈ qs ++ [p], '/' ∉ q := by
    intro q hq
    refine hslash q ?_
    rw [List.append_cons]
    exact List.mem_append_left rest hq
  rw [components, located_eq, habs, hbetween, Text.pieces_intercalate (by simp) hslash',
    locatedFrom_append, hqs, Nat.zero_add, locatedFrom_cons, ← Nat.zero_add (width qs), hp]
  simp

/-- The text up to the end of a component has the components up to it. -/
theorem components_between {path : Path} {before after : List Located} {l : Located}
    (h : path.located = before ++ l :: after) :
    (path.between 0 l.stop).components = (before ++ [l]).map Located.component := by
  rw [located_eq] at h
  by_cases habs : path.isAbsolute = true
  · rw [if_pos habs] at h
    cases before with
    | nil =>
      obtain ⟨rfl, -⟩ := List.cons.inj h
      obtain ⟨cs, hcs⟩ : ∃ cs, path.text.toList = '/' :: cs := by
        rw [isAbsolute, beq_iff_eq] at habs
        exact List.head?_eq_some_iff.mp habs
      have hroot : path.between 0 1 = ⟨"/"⟩ := by
        rw [between, hcs]
        rfl
      rw [hroot]
      decide
    | cons b before =>
      obtain ⟨rfl, hrest⟩ := List.cons.inj h
      rw [components_between_piece hrest, if_pos habs]
      rfl
  · rw [if_neg habs] at h
    rw [components_between_piece h, if_neg habs]
    rfl

/-- The path without its last component, which is a name. -/
theorem components_parent {path : Path} {cs : List PathComponent} {s : String}
    (h : path.components = cs ++ [.name s]) : ((path.parent?).getD ⟨""⟩).components = cs := by
  obtain ⟨before, rest, hlocated, hbefore, hrest⟩ := List.map_eq_append_iff.mp h
  obtain ⟨⟨c, start, stop⟩, rfl, rfl⟩ := List.map_eq_singleton_iff.mp hrest
  rcases List.eq_nil_or_concat before with rfl | ⟨init, l, rfl⟩
  · have hparent : path.parent? = some ⟨""⟩ := by
      rw [parent?, hlocated]
      rfl
    rw [hparent, ← hbefore]
    decide
  · rw [List.concat_eq_append] at hlocated hbefore
    have hparent : path.parent? = some (path.between 0 l.stop) := by
      rw [parent?, hlocated]
      simp
    have hsplit : path.located = init ++ l :: [⟨.name s, start, stop⟩] := by
      rw [hlocated, List.append_assoc]
      rfl
    rw [hparent, Option.getD_some, components_between hsplit, hbefore]

/-- A text that is one name. -/
structure IsName (s : String) : Prop where
  ne_empty : s ≠ ""
  ne_dot : s ≠ "."
  ne_dots : s ≠ ".."
  noSlash : '/' ∉ s.toList

instance (s : String) : Decidable (IsName s) :=
  decidable_of_iff (s ≠ "" ∧ s ≠ "." ∧ s ≠ ".." ∧ '/' ∉ s.toList)
    ⟨fun ⟨hne, hdot, hdots, hslash⟩ => ⟨hne, hdot, hdots, hslash⟩,
      fun h => ⟨h.ne_empty, h.ne_dot, h.ne_dots, h.noSlash⟩⟩

/-- Behind its start, a path is made of names and steps up. -/
theorem mem_stepsIn {text : List Char} {c : PathComponent} (h : c ∈ stepsIn text) :
    c = .up ∨ ∃ s, c = .name s ∧ IsName s := by
  obtain ⟨piece, hpiece, hc⟩ := List.mem_filterMap.mp h
  have hslash := Text.not_mem_of_mem_pieces hpiece
  unfold component? at hc
  split at hc
  · cases hc
  · cases hc
  · cases hc
    exact .inl rfl
  · next hne hdot hdots =>
    cases hc
    refine .inr ⟨_, rfl, ?_, ?_, ?_, by simpa using hslash⟩
    · intro he
      exact hne (by simpa using congrArg String.toList he)
    · intro he
      exact hdot (by simpa using congrArg String.toList he)
    · intro he
      exact hdots (by simpa using congrArg String.toList he)

/-- A leading part never starts with the root again. -/
theorem root_not_mem_stepsIn (cs : List Char) : .root ∉ stepsIn cs := by
  intro h
  rcases mem_stepsIn h with he | ⟨s, he, -⟩ <;> cases he

/-- Behind its first component, a path goes on in steps. -/
theorem mem_stepsIn_of_mem_drop {p : Path} {n : Nat} (hn : 0 < n) {c : PathComponent}
    (hc : c ∈ p.components.drop n) : c ∈ stepsIn p.text.toList := by
  have hhead : (headOf p.text.toList).length ≤ n := by
    unfold headOf
    split
    · exact hn
    · split
      · exact hn
      · exact Nat.zero_le n
  rw [components_eq, List.drop_append, List.drop_eq_nil_of_le hhead, List.nil_append] at hc
  exact List.mem_of_mem_drop hc

/-- Behind its first component, a path without `..` is made of names. -/
theorem exists_names_of_drop {p : Path} {n : Nat} (hn : 0 < n) (hup : .up ∉ p.components.drop n) :
    ∃ names : List String, p.components.drop n = names.map .name := by
  have hname : ∀ c ∈ p.components.drop n, ∃ s, c = .name s := by
    intro c hc
    rcases mem_stepsIn (mem_stepsIn_of_mem_drop hn hc) with rfl | ⟨s, rfl, -⟩
    · exact absurd hc hup
    · exact ⟨s, rfl⟩
  generalize p.components.drop n = cs at hname
  induction cs with
  | nil => exact ⟨[], rfl⟩
  | cons c cs ih =>
    obtain ⟨s, rfl⟩ := hname c (by simp)
    obtain ⟨names, rfl⟩ := ih fun c hc => hname c (List.mem_cons_of_mem _ hc)
    exact ⟨s :: names, rfl⟩

theorem stepsIn_append (s t : List Char) : stepsIn (s ++ '/' :: t) = stepsIn s ++ stepsIn t := by
  rw [stepsIn, Text.pieces_append, List.filterMap_append]
  rfl

theorem headOf_append {s : List Char} (hs : s ≠ []) (t : List Char) :
    headOf (s ++ '/' :: t) = headOf s := by
  have hpieces : (Text.pieces '/' (s ++ '/' :: t)).head? = (Text.pieces '/' s).head? := by
    rw [Text.pieces_append, List.head?_append_of_ne_nil _ (Text.pieces_ne_nil '/' s)]
  rw [headOf, headOf, hpieces, List.head?_append_of_ne_nil s hs]

theorem IsName.component? {s : String} (h : IsName s) (isFirst : Bool) :
    Path.component? isFirst s.toList = some (.name s) := by
  have hne : s.toList ≠ [] := by
    intro he
    exact h.ne_empty (String.toList_inj.mp he)
  have hdot : s.toList ≠ ['.'] := by
    intro he
    exact h.ne_dot (String.toList_inj.mp he)
  have hdots : s.toList ≠ ['.', '.'] := by
    intro he
    exact h.ne_dots (String.toList_inj.mp he)
  unfold Path.component?
  split <;> simp_all

theorem stepsIn_names {names : List String} (h : ∀ s ∈ names, IsName s) :
    stepsIn (['/'].intercalate (names.map String.toList)) = names.map .name := by
  cases names with
  | nil => rfl
  | cons s names =>
    have hslash : ∀ q ∈ (s :: names).map String.toList, '/' ∉ q := by
      intro q hq
      obtain ⟨u, hu, rfl⟩ := List.mem_map.mp hq
      exact (h u hu).noSlash
    rw [stepsIn, Text.pieces_intercalate (by simp) hslash, List.filterMap_map,
      ← List.filterMap_eq_map]
    refine List.filterMap_congr ?_
    intro u hu
    exact (h u hu).component? false

/-- Only an empty path has no components. -/
theorem components_eq_nil_iff {p : Path} : p.components = [] ↔ p.text = "" := by
  rw [components_eq, List.append_eq_nil_iff]
  constructor
  · rintro ⟨hhead, hsteps⟩
    by_contra hne
    obtain ⟨c, cs, htext⟩ := List.exists_cons_of_ne_nil fun he => hne (String.toList_inj.mp he)
    rw [htext] at hhead hsteps
    by_cases hc : c = '/'
    · simp [headOf, hc] at hhead
    · -- the first piece is not empty, so it is a dot, and that counts at the start
      obtain ⟨q, qs, -, hpieces⟩ := Text.pieces_cons_of_ne hc cs
      have hfirst : component? false (c :: q) = none :=
        List.filterMap_eq_nil_iff.mp hsteps _ (by simp [hpieces])
      have hdot : c :: q = ['.'] := by
        unfold component? at hfirst
        split at hfirst <;> simp_all
      simp [headOf, hc, hpieces, hdot] at hhead
  · intro he
    simp [he, headOf, stepsIn, Text.pieces, component?]

/-- Joining to a path that names something adds the steps of the second one. -/
theorem components_join {p : Path} {q : String} (hp : p.components ≠ [])
    (hq : q.toList.head? ≠ some '/') : (p.join q).components = p.components ++ stepsIn q.toList := by
  have htext : p.text.toList ≠ [] := by
    intro he
    exact hp (components_eq_nil_iff.mpr (String.toList_inj.mp he))
  have hempty : p.text.isEmpty = false := by
    simpa [String.isEmpty_iff] using fun he : p.text = "" => htext (by simp [he])
  unfold join
  rw [if_neg (by simpa using hq), hempty, Bool.false_or]
  by_cases hlast : p.text.toList.getLast? = some '/'
  · obtain ⟨s, hs⟩ : ∃ s, p.text.toList = s ++ ['/'] := List.getLast?_eq_some_iff.mp hlast
    rw [if_pos (by simpa using hlast), components_eq, components_eq, String.toList_append, hs,
      List.append_assoc, List.singleton_append, stepsIn_append, stepsIn_append]
    have hends : headOf (s ++ '/' :: q.toList) = headOf (s ++ ['/']) := by
      by_cases hsne : s = []
      · subst hsne
        simp [headOf]
      · rw [headOf_append hsne, headOf_append hsne]
    have hnil : stepsIn [] = [] := rfl
    rw [hends, hnil, List.append_nil, List.append_assoc]
  · rw [if_neg (by simpa using hlast), components_eq, components_eq, String.toList_append,
      String.toList_append]
    have hslash : p.text.toList ++ "/".toList ++ q.toList = p.text.toList ++ '/' :: q.toList := by
      simp
    rw [hslash, stepsIn_append, headOf_append htext, List.append_assoc]

/-- Joining names that are written with slashes adds each of them. -/
theorem components_join_joined {p : Path} {names : List String} (hp : p.components ≠ [])
    (hnames : ∀ s ∈ names, IsName s) :
    (p.join (Text.joined "/" names)).components = p.components ++ names.map .name := by
  have hslash : (Text.joined "/" names).toList.head? ≠ some '/' := by
    rw [Text.toList_joined]
    cases names with
    | nil => simp
    | cons s names =>
      obtain ⟨c, cs, hs⟩ := List.exists_cons_of_ne_nil (l := s.toList) fun he =>
        (hnames s (by simp)).ne_empty (String.toList_inj.mp he)
      have hc : c ≠ '/' := by
        rintro rfl
        exact (hnames s (by simp)).noSlash (by simp [hs])
      cases names <;> simp [hs, hc]
  rw [components_join hp hslash, Text.toList_joined, stepsIn_names hnames]

/-- A name behind a path is one component more. -/
theorem components_div (p : Path) {s : String} (hs : IsName s) :
    (p / s).components = p.components ++ [.name s] := by
  by_cases hp : p.components = []
  · have hjoin : p / s = ⟨s⟩ := by
      change p.join s = ⟨s⟩
      have hslash : s.toList.head? ≠ some '/' := fun he => hs.noSlash (List.mem_of_mem_head? he)
      rw [join, if_neg (by simpa using hslash), components_eq_nil_iff.mp hp]
      simp
    have habs : isAbsolute ⟨s⟩ = false := by
      simpa [isAbsolute] using fun he => hs.noSlash (List.mem_of_mem_head? he)
    rw [hp, hjoin, components, located_eq, habs, Text.pieces_of_not_mem hs.noSlash]
    simp [locatedFrom_cons, hs.component?]
  · have hnames : ∀ u ∈ [s], IsName u := by simpa using hs
    have hjoin := components_join_joined hp hnames
    rw [Text.joined] at hjoin
    exact hjoin

/-- The place that a component leads to. -/
def enter (place : List String) : PathComponent → List String
  | .root => []
  | .here => place
  | .up => place.dropLast
  | .name s => place ++ [s]

/-- The place that a path leads to from another one. -/
def lead (start : List String) (p : Path) : List String := p.components.foldl enter start

@[simp] theorem foldl_enter_names (place names : List String) :
    (names.map PathComponent.name).foldl enter place = place ++ names := by
  induction names generalizing place with
  | nil => simp
  | cons s names ih => simp [enter, ih]

theorem head?_ne_slash_iff {p : Path} : p.text.toList.head? ≠ some '/' ↔ .root ∉ p.components := by
  rw [components_eq, List.mem_append, not_or]
  constructor
  · intro h
    refine ⟨?_, root_not_mem_stepsIn _⟩
    unfold headOf
    split
    · simp_all
    · split <;> simp
  · rintro ⟨h, -⟩ hslash
    exact h (by simp [headOf, hslash])

/-- A dot at the start leads nowhere. -/
theorem lead_of_relative {p : Path} (h : .root ∉ p.components) (start : List String) :
    p.lead start = (stepsIn p.text.toList).foldl enter start := by
  have hslash := head?_ne_slash_iff.mpr h
  rw [lead, components_eq, List.foldl_append, headOf, if_neg (by simpa using hslash)]
  split <;> rfl

/-- A path that is joined to another one goes on from where that leads. -/
theorem lead_join {p q : Path} (hp : p.components ≠ []) (hq : .root ∉ q.components)
    (start : List String) : (p.join q.text).lead start = q.lead (p.lead start) := by
  rw [lead, components_join hp (head?_ne_slash_iff.mpr hq), List.foldl_append, lead_of_relative hq,
    lead]

/-- A path leads from the root straight to a place. -/
def IsAt (p : Path) (place : List String) : Prop := p.components = .root :: place.map .name

instance (p : Path) (place : List String) : Decidable (p.IsAt place) :=
  inferInstanceAs (Decidable (p.components = _))

namespace IsAt

variable {p : Path} {place names : List String}

theorem components_eq (h : p.IsAt place) : p.components = .root :: place.map .name := h

theorem components_ne_nil (h : p.IsAt place) : p.components ≠ [] := by simp [h.components_eq]

theorem eq {place' : List String} (h : p.IsAt place) (h' : p.IsAt place') : place = place' := by
  have hcomponents := h.components_eq.symm.trans h'.components_eq
  rw [List.cons.injEq] at hcomponents
  exact List.map_injective_iff.mpr (fun _ _ he => PathComponent.name.inj he) hcomponents.2

theorem lead (h : p.IsAt place) (start : List String) : p.lead start = place := by
  rw [Path.lead, h.components_eq, List.foldl_cons, foldl_enter_names]
  rfl

theorem join (h : p.IsAt place) (hnames : ∀ s ∈ names, IsName s) :
    (p.join (Text.joined "/" names)).IsAt (place ++ names) := by
  rw [IsAt, components_join_joined h.components_ne_nil hnames, h.components_eq, List.cons_append,
    List.map_append]

theorem div {s : String} (h : p.IsAt place) (hs : IsName s) : (p / s).IsAt (place ++ [s]) := by
  rw [IsAt, components_div p hs, h.components_eq, List.map_append]
  rfl

end IsAt

/-- How far below a directory a way stays that starts some way below it; none if it leads out. -/
def descend : (depth : Nat) → List PathComponent → Option Nat
  | depth, [] => some depth
  | _, .root :: _ => none
  | depth, .here :: cs => descend depth cs
  | 0, .up :: _ => none
  | depth + 1, .up :: cs => descend depth cs
  | depth, .name _ :: cs => descend (depth + 1) cs

theorem descend_of_deeper {depth below : Nat} {cs : List PathComponent}
    (h : descend depth cs = some below) : descend (depth + 1) cs = some (below + 1) := by
  induction cs generalizing depth with
  | nil =>
    cases h
    rfl
  | cons c cs ih =>
    cases c with
    | root => cases h
    | here => exact ih h
    | up =>
      cases depth with
      | zero => cases h
      | succ depth => exact ih h
    | name s => exact ih h

theorem root_not_mem_of_descend {depth below : Nat} {cs : List PathComponent}
    (h : descend depth cs = some below) : .root ∉ cs := by
  induction cs generalizing depth with
  | nil => simp
  | cons c cs ih =>
    cases c with
    | root => cases h
    | here => simpa using ih h
    | up =>
      cases depth with
      | zero => cases h
      | succ depth => simpa using ih h
    | name s => simpa using ih h

theorem descend_stepsIn {depth : Nat} {p : Path} (h : .root ∉ p.components) :
    descend depth (stepsIn p.text.toList) = descend depth p.components := by
  rw [components_eq, headOf, if_neg (by simpa using head?_ne_slash_iff.mpr h)]
  split <;> rfl

/-- A way that does not lead out of a directory ends in it. -/
theorem foldl_enter_of_descend {depth below : Nat} {cs : List PathComponent}
    (h : descend depth cs = some below) (dir : List String) {names : List String}
    (hlen : names.length = depth) : dir <+: cs.foldl enter (dir ++ names) := by
  induction cs generalizing depth names with
  | nil => exact List.prefix_append dir names
  | cons c cs ih =>
    rw [List.foldl_cons]
    cases c with
    | root => cases h
    | here => exact ih h hlen
    | up =>
      cases depth with
      | zero => cases h
      | succ depth =>
        have hne : names ≠ [] := by
          rintro rfl
          cases hlen
        rw [enter, List.dropLast_append_of_ne_nil hne]
        exact ih h (by simp [hlen])
    | name s =>
      rw [enter, List.append_assoc]
      exact ih h (by simp [hlen])

end Path
end Instrumentation
