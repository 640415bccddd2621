/-!
Cutting text at a separator. Texts are read as lists of characters, so that every piece is
found by recursion on the text itself.
-/
namespace Instrumentation.Text

/-- The text up to the first `sep` and the text after it, if there is a `sep`. -/
def cut (sep : Char) : List Char → Option (List Char × List Char)
  | [] => none
  | c :: cs =>
    if c = sep then some ([], cs)
    else (cut sep cs).map fun (before, after) => (c :: before, after)

/-- The pieces between separators; there is always one piece more than there are separators. -/
def pieces (sep : Char) : List Char → List (List Char)
  | [] => [[]]
  | c :: cs =>
    if c = sep then [] :: pieces sep cs
    else match pieces sep cs with
      | [] => [[c]]
      | p :: ps => (c :: p) :: ps

/-- Lines with their line ends; a text that ends in a line end has no empty last line. -/
def linesWithEnds : List Char → List (List Char)
  | [] => []
  | c :: cs =>
    if c = '\n' then [c] :: linesWithEnds cs
    else match linesWithEnds cs with
      | [] => [[c]]
      | l :: ls => (c :: l) :: ls

/-- A line without its line end. -/
def withoutEnd (line : List Char) : List Char :=
  match line.reverse with
  | '\n' :: '\r' :: rest => rest.reverse
  | '\n' :: rest => rest.reverse
  | _ => line

/-- Lines without their line ends. -/
def lines (text : List Char) : List (List Char) := (linesWithEnds text).map withoutEnd

/-- What follows `lead`, if the text starts with it. -/
def after? : (lead text : List Char) → Option (List Char)
  | [], text => some text
  | _ :: _, [] => none
  | l :: lead, c :: text => if l = c then after? lead text else none

/-- The pieces with `sep` between neighbours. -/
def joined (sep : String) : List String → String
  | [] => ""
  | [s] => s
  | s :: t :: rest => s ++ sep ++ joined sep (t :: rest)

/-- The number of bytes of a text in UTF-8. -/
def byteLength : List Char → Nat
  | [] => 0
  | c :: cs => c.utf8Size + byteLength cs

@[simp] theorem byteLength_nil : byteLength [] = 0 := rfl

@[simp] theorem byteLength_cons (c : Char) (cs : List Char) :
    byteLength (c :: cs) = c.utf8Size + byteLength cs := rfl

@[simp] theorem byteLength_append (s t : List Char) :
    byteLength (s ++ t) = byteLength s + byteLength t := by
  induction s with
  | nil => simp
  | cons c s ih => simp [ih, Nat.add_assoc]

theorem cut_nil (sep : Char) : cut sep [] = none := rfl

theorem cut_cons_self (sep : Char) (s : List Char) : cut sep (sep :: s) = some ([], s) := if_pos rfl

theorem cut_cons_of_ne {sep c : Char} (h : c ≠ sep) (s : List Char) :
    cut sep (c :: s) = (cut sep s).map fun r => (c :: r.1, r.2) := if_neg h

theorem cut_eq_some {sep : Char} {s before rest : List Char}
    (h : cut sep s = some (before, rest)) : s = before ++ sep :: rest := by
  induction s generalizing before with
  | nil => cases h
  | cons c s ih =>
    by_cases hc : c = sep
    · subst hc
      rw [cut_cons_self] at h
      cases h
      rfl
    · simp only [cut_cons_of_ne hc, Option.map_eq_some_iff, Prod.mk.injEq] at h
      obtain ⟨⟨b, r⟩, hb, rfl, rfl⟩ := h
      rw [ih hb, List.cons_append]

theorem not_mem_of_cut {sep : Char} {s before rest : List Char}
    (h : cut sep s = some (before, rest)) : sep ∉ before := by
  induction s generalizing before with
  | nil => cases h
  | cons c s ih =>
    by_cases hc : c = sep
    · subst hc
      simp only [cut_cons_self, Option.some.injEq, Prod.mk.injEq] at h
      simp [← h.1]
    · simp only [cut_cons_of_ne hc, Option.map_eq_some_iff, Prod.mk.injEq] at h
      obtain ⟨⟨b, r⟩, hb, rfl, rfl⟩ := h
      simp [Ne.symm hc, ih hb]

theorem cut_append {sep : Char} {before : List Char} (h : sep ∉ before) (rest : List Char) :
    cut sep (before ++ sep :: rest) = some (before, rest) := by
  induction before with
  | nil => exact cut_cons_self sep rest
  | cons c before ih =>
    rw [List.mem_cons, not_or] at h
    simp [cut_cons_of_ne (Ne.symm h.1), ih h.2]

theorem cut_eq_none_iff {sep : Char} {s : List Char} : cut sep s = none ↔ sep ∉ s := by
  induction s with
  | nil => simp [cut_nil]
  | cons c s ih =>
    by_cases hc : c = sep
    · subst hc
      simp [cut_cons_self]
    · simp [cut_cons_of_ne hc, ih, Ne.symm hc]

theorem after?_eq_some_iff {lead text rest : List Char} :
    after? lead text = some rest ↔ text = lead ++ rest := by
  induction lead generalizing text with
  | nil => simp [after?, eq_comm]
  | cons l lead ih =>
    cases text with
    | nil => simp [after?]
    | cons c text =>
      by_cases h : l = c
      · simp [after?, h, ih]
      · simp [after?, h, Ne.symm h]

end Instrumentation.Text
