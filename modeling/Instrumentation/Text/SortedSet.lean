import Instrumentation.Sorting

/-!
Sets of texts as increasing lists.
-/
namespace Instrumentation.Text

/-- A sorted list without the repetitions of neighbours. -/
def withoutRepeats : List String → List String
  | [] => []
  | [s] => [s]
  | s :: t :: rest => if s = t then withoutRepeats (t :: rest) else s :: withoutRepeats (t :: rest)

/-- The members of a list, each once, in increasing order. -/
def sortedSet (xs : List String) : List String :=
  withoutRepeats (sortedBy (fun a b => decide (a ≤ b)) xs)

theorem mem_withoutRepeats {s : String} {xs : List String} :
    s ∈ withoutRepeats xs ↔ s ∈ xs := by
  fun_induction withoutRepeats xs with
  | case1 => rfl
  | case2 => rfl
  | case3 t rest ih => simp_all
  | case4 s t rest h ih => simp_all

@[simp] theorem mem_sortedSet {s : String} {xs : List String} : s ∈ sortedSet xs ↔ s ∈ xs := by
  simp [sortedSet, mem_withoutRepeats]

theorem pairwise_withoutRepeats {xs : List String} (h : xs.Pairwise (· ≤ ·)) :
    (withoutRepeats xs).Pairwise (· < ·) := by
  fun_induction withoutRepeats xs with
  | case1 => exact .nil
  | case2 => exact List.pairwise_singleton _ _
  | case3 t rest ih => exact ih h.of_cons
  | case4 s t rest hne ih =>
    obtain ⟨hs, hrest⟩ := List.pairwise_cons.mp h
    refine List.pairwise_cons.mpr ⟨fun x hx => ?_, ih hrest⟩
    have ht : s < t := Std.lt_of_le_of_ne (hs t List.mem_cons_self) hne
    rcases List.mem_cons.mp (mem_withoutRepeats.mp hx) with rfl | hx
    · exact ht
    · exact Std.lt_of_lt_of_le ht ((List.pairwise_cons.mp hrest).1 x hx)

/-- The members of a set come in order, each once. -/
theorem pairwise_sortedSet (xs : List String) : (sortedSet xs).Pairwise (· < ·) := by
  refine pairwise_withoutRepeats ((pairwise_sortedBy ?_ ?_ xs).imp of_decide_eq_true)
  · intro a b c hab hbc
    simp only [decide_eq_true_eq] at hab hbc ⊢
    exact Std.le_trans hab hbc
  · intro a b
    simpa using Std.le_total (a := a) (b := b)

end Instrumentation.Text
