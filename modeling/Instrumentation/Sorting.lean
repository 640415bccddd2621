/-!
Sorting by insertion. It gives what `List.mergeSort` gives; unlike merging, which recurses on two
lists at a time, it is structural, so that what is sorted can be computed in proofs.
-/
namespace Instrumentation

/-- Comparison by something that is compared in order is in order. -/
theorem transCmp_on {α β : Type} (f : α → β) (cmp : β → β → Ordering) [Std.TransCmp cmp] :
    Std.TransCmp fun a b => cmp (f a) (f b) where
  eq_swap := Std.OrientedCmp.eq_swap
  isLE_trans := Std.TransCmp.isLE_trans

section

variable {α β : Type} {le : α → α → Bool}

/-- Insertion before the first element that may stand behind. -/
def insertSorted (le : α → α → Bool) (a : α) : List α → List α
  | [] => [a]
  | b :: bs => if le a b then a :: b :: bs else b :: insertSorted le a bs

/-- The elements in order. Those that may stand either way keep their order. -/
def sortedBy (le : α → α → Bool) (xs : List α) : List α := xs.foldr (insertSorted le) []

@[simp] theorem sortedBy_nil : sortedBy le [] = [] := rfl

@[simp] theorem sortedBy_cons {a : α} {xs : List α} :
    sortedBy le (a :: xs) = insertSorted le a (sortedBy le xs) := rfl

theorem insertSorted_perm {a : α} {xs : List α} : (insertSorted le a xs).Perm (a :: xs) := by
  fun_induction insertSorted le a xs with
  | case1 => exact .refl _
  | case2 b bs h => exact .refl _
  | case3 b bs h ih => exact (ih.cons b).trans (.swap a b bs)

theorem sortedBy_perm {xs : List α} : (sortedBy le xs).Perm xs := by
  induction xs with
  | nil => exact .refl _
  | cons a xs ih => exact insertSorted_perm.trans (ih.cons a)

@[simp] theorem mem_sortedBy {a : α} {xs : List α} : a ∈ sortedBy le xs ↔ a ∈ xs :=
  sortedBy_perm.mem_iff

/-- What is in order stays as it is. -/
theorem sortedBy_of_pairwise {xs : List α} (h : xs.Pairwise fun a b => le a b = true) :
    sortedBy le xs = xs := by
  induction xs with
  | nil => rfl
  | cons a xs ih =>
    obtain ⟨ha, hxs⟩ := List.pairwise_cons.mp h
    rw [sortedBy_cons, ih hxs]
    cases xs with
    | nil => rfl
    | cons b bs => rw [insertSorted, if_pos (ha b List.mem_cons_self)]

/-- Sorting what is made of elements in a way that keeps their order. -/
theorem sortedBy_map {le' : β → β → Bool} {f : α → β} (h : ∀ a b, le' (f a) (f b) = le a b)
    (xs : List α) : sortedBy le' (xs.map f) = (sortedBy le xs).map f := by
  have hinsert (a : α) (xs : List α) :
      insertSorted le' (f a) (xs.map f) = (insertSorted le a xs).map f := by
    induction xs with
    | nil => rfl
    | cons b bs ih =>
      rw [List.map_cons, insertSorted, insertSorted, h, ih]
      split <;> rfl
  induction xs with
  | nil => rfl
  | cons a xs ih => rw [List.map_cons, sortedBy_cons, sortedBy_cons, ih, hinsert]

theorem insertSorted_append {a : α} {before after : List α} (hbefore : ∀ b ∈ before, le a b = false)
    (hafter : ∀ b ∈ after.head?, le a b = true) :
    insertSorted le a (before ++ after) = before ++ a :: after := by
  induction before with
  | nil =>
    cases after with
    | nil => rfl
    | cons b bs => exact if_pos (hafter b rfl)
  | cons b bs ih =>
    have hb : ¬ le a b = true := by simp [hbefore b List.mem_cons_self]
    rw [List.cons_append, insertSorted, if_neg hb,
      ih fun b hmem => hbefore b (List.mem_cons_of_mem _ hmem), List.cons_append]

theorem sortedBy_eq_mergeSort (htrans : ∀ a b c, le a b = true → le b c = true → le a c = true)
    (htotal : ∀ a b, (le a b || le b a) = true) (xs : List α) :
    sortedBy le xs = xs.mergeSort le := by
  induction xs with
  | nil => simp
  | cons a xs ih =>
    obtain ⟨before, after, hcons, hxs, hbefore⟩ := List.mergeSort_cons htrans htotal a xs
    have hsorted := List.pairwise_mergeSort htrans htotal (a :: xs)
    rw [hcons, List.pairwise_append] at hsorted
    rw [sortedBy_cons, ih, hxs, hcons]
    refine insertSorted_append (fun b hb => by simpa using hbefore b hb) fun b hb => ?_
    exact (List.pairwise_cons.mp hsorted.2.1).1 b (List.mem_of_mem_head? hb)

theorem pairwise_sortedBy (htrans : ∀ a b c, le a b = true → le b c = true → le a c = true)
    (htotal : ∀ a b, (le a b || le b a) = true) (xs : List α) :
    (sortedBy le xs).Pairwise fun a b => le a b = true := by
  rw [sortedBy_eq_mergeSort htrans htotal]
  exact List.pairwise_mergeSort htrans htotal xs

end

end Instrumentation
