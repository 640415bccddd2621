import Instrumentation.Matches
import Mathlib.Order.Defs.LinearOrder

/-!
Match sets. Matches are compared by what tells them apart, so that sorting them and leaving out
repetitions gives an increasing list, with one match for each file, place and rule.
-/
namespace Instrumentation

open Std (TransCmp LawfulEqCmp OrientedCmp ReflCmp)

instance : LawfulEqCmp PathComponent.cmp where
  eq_of_compare {a b} h := by
    simp only [PathComponent.cmp, Ordering.then_eq_eq, LawfulEqCmp.compare_eq_iff_eq] at h
    cases a <;> cases b <;> simp_all [PathComponent.rank, PathComponent.text]

namespace Path

/-- Paths that are sorted alike are the same, and the other way round. -/
theorem cmp_eq_iff {p q : Path} : p.cmp q = .eq ↔ p.same q = true := by
  rw [cmp, LawfulEqCmp.compare_eq_iff_eq, same, beq_iff_eq]

end Path

namespace Match

theorem cmp_eq_iff {a b : Match} : a.cmp b = .eq ↔ a.file.path.same b.file.path = true ∧
    a.decl.bodyOpen = b.decl.bodyOpen ∧ a.rule.order = b.rule.order := by
  simp only [cmp, Ordering.then_eq_eq, Path.cmp_eq_iff, LawfulEqCmp.compare_eq_iff_eq]

/-- A match stands before another in a file before, or further up in the same file, or at the same
place with an earlier rule. -/
def Before (a b : Match) : Prop :=
  a.file.path.cmp b.file.path = .lt ∨ a.file.path.same b.file.path = true ∧
    (a.decl.bodyOpen < b.decl.bodyOpen ∨
      a.decl.bodyOpen = b.decl.bodyOpen ∧ a.rule.order < b.rule.order)

theorem cmp_eq_lt_iff {a b : Match} : a.cmp b = .lt ↔ a.Before b := by
  simp only [cmp, Before, Ordering.then_eq_lt, Path.cmp_eq_iff, LawfulEqCmp.compare_eq_iff_eq,
    Nat.compare_eq_lt]

/-- The same rule with the same declaration of the same file. -/
def SamePair (a b : Match) : Prop :=
  a.rule = b.rule ∧ a.decl = b.decl ∧ a.file.path.same b.file.path = true

theorem Before.not_samePair {a b : Match} (h : a.Before b) : ¬ a.SamePair b := by
  rintro ⟨hrule, hdecl, hpath⟩
  have heq : a.cmp b = .eq := cmp_eq_iff.mpr ⟨hpath, congrArg _ hdecl, congrArg _ hrule⟩
  rw [cmp_eq_lt_iff.mpr h] at heq
  cases heq

end Match

namespace MatchSet

variable {m last : Match} {ms : List Match}

theorem mem_of_mem_after (h : m ∈ firsts.after last ms) : m ∈ ms := by
  induction ms generalizing last with
  | nil => exact h
  | cons a rest ih =>
    rw [firsts.after] at h
    split at h
    · exact List.mem_cons_of_mem a (ih h)
    · rcases List.mem_cons.mp h with rfl | h
      · exact List.mem_cons_self
      · exact List.mem_cons_of_mem a (ih h)

/-- A match that is left out is equal to one that stays. -/
theorem exists_after (h : m ∈ last :: ms) : ∃ k ∈ last :: firsts.after last ms, k.cmp m = .eq := by
  induction ms generalizing last with
  | nil => exact ⟨m, h, ReflCmp.compare_self⟩
  | cons a rest ih =>
    rw [firsts.after]
    split
    · next heq =>
      rcases List.mem_cons.mp h with rfl | h
      · exact ⟨m, List.mem_cons_self, ReflCmp.compare_self⟩
      · rcases List.mem_cons.mp h with rfl | h
        · exact ⟨last, List.mem_cons_self, beq_iff_eq.mp heq⟩
        · exact ih (List.mem_cons_of_mem last h)
    · rcases List.mem_cons.mp h with rfl | h
      · exact ⟨m, List.mem_cons_self, ReflCmp.compare_self⟩
      · obtain ⟨k, hk, hcmp⟩ := ih h
        exact ⟨k, List.mem_cons_of_mem last hk, hcmp⟩

theorem mem_of_mem_firsts (h : m ∈ firsts ms) : m ∈ ms := by
  cases ms with
  | nil => exact h
  | cons a rest =>
    rcases List.mem_cons.mp h with rfl | h
    · exact List.mem_cons_self
    · exact List.mem_cons_of_mem a (mem_of_mem_after h)

theorem mem_of_mem_ofList (h : m ∈ (ofList ms).toList) : m ∈ ms :=
  mem_sortedBy.mp (mem_of_mem_firsts h)

theorem exists_firsts (h : m ∈ ms) : ∃ k ∈ firsts ms, k.cmp m = .eq := by
  cases ms with
  | nil => cases h
  | cons a rest => exact exists_after h

/-- Every match is in the set, or one that cannot be told from it. -/
theorem exists_ofList (h : m ∈ ms) : ∃ k ∈ (ofList ms).toList, k.cmp m = .eq :=
  exists_firsts (mem_sortedBy.mpr h)

/-- The matches of a set come one before the other. -/
theorem before (s : MatchSet) : s.toList.Pairwise Match.Before :=
  s.increasing.imp Match.cmp_eq_lt_iff.mp

end MatchSet
end Instrumentation
