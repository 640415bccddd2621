import Instrumentation.Version.Range
import Mathlib.Order.Defs.LinearOrder

/-!
The order of versions is total: labels are compared by their kind and then by what they hold, and
versions part by part. So bounds can be tightened in any order, and ranges are disjoint from each
other.
-/
namespace Instrumentation

open Std (TransCmp LawfulEqCmp OrientedCmp ReflCmp)

namespace PreLabel

def rank : PreLabel → Nat
  | number _ => 0
  | word _ => 1

def value : PreLabel → Nat
  | number n => n
  | word _ => 0

def letters : PreLabel → String
  | number _ => ""
  | word s => s

theorem cmp_eq :
    cmp = compareLex (compareOn rank) (compareLex (compareOn value) (compareOn letters)) := by
  funext a b
  cases a with
  | number m =>
    cases b with
    | number n => simp [cmp, compareLex, compareOn, rank, value, letters]
    | word t => rfl
  | word s =>
    cases b with
    | number n => rfl
    | word t => simp [cmp, compareLex, compareOn, rank, value, letters]

instance : TransCmp cmp := by
  rw [cmp_eq]
  infer_instance

instance : LawfulEqCmp cmp where
  eq_of_compare {a b} h := by
    cases a <;> cases b <;> simp_all [cmp]

end PreLabel

namespace BuildLabel

def rank : BuildLabel → Nat
  | number _ _ => 0
  | word _ => 1

def value : BuildLabel → Nat
  | number _ n => n
  | word _ => 0

def zeros : BuildLabel → Nat
  | number z _ => z
  | word _ => 0

def letters : BuildLabel → String
  | number _ _ => ""
  | word s => s

theorem cmp_eq : cmp = compareLex (compareOn rank)
    (compareLex (compareOn value) (compareLex (compareOn zeros) (compareOn letters))) := by
  funext a b
  cases a with
  | number z m =>
    cases b with
    | number y n => simp [cmp, compareLex, compareOn, rank, value, zeros, letters]
    | word t => rfl
  | word s =>
    cases b with
    | number y n => rfl
    | word t => simp [cmp, compareLex, compareOn, rank, value, zeros, letters]

instance : TransCmp cmp := by
  rw [cmp_eq]
  infer_instance

instance : LawfulEqCmp cmp where
  eq_of_compare {a b} h := by
    cases a <;> cases b <;> simp_all [cmp, Ordering.then_eq_eq]

end BuildLabel

namespace Version

/-- A release is above its prereleases. -/
def preRank (labels : List PreLabel) : Nat := if labels.isEmpty then 1 else 0

theorem cmpPre_eq : cmpPre = compareLex (compareOn preRank) (List.compareLex PreLabel.cmp) := by
  funext a b
  cases a <;> cases b <;> rfl

instance : TransCmp cmpPre := by
  rw [cmpPre_eq]
  infer_instance

instance : LawfulEqCmp cmpPre where
  eq_of_compare {a b} h := by
    rw [cmpPre_eq, compareLex, Ordering.then_eq_eq] at h
    exact LawfulEqCmp.eq_of_compare h.2

instance : TransCmp cmpBuild := inferInstanceAs (TransCmp (List.compareLex BuildLabel.cmp))

instance : LawfulEqCmp cmpBuild := inferInstanceAs (LawfulEqCmp (List.compareLex BuildLabel.cmp))

theorem cmp_eq : cmp = compareLex (compareOn major) (compareLex (compareOn minor)
    (compareLex (compareOn patch)
      (compareLex (Ordering.byKey pre cmpPre) (Ordering.byKey build cmpBuild)))) := rfl

instance : TransCmp cmp := by
  rw [cmp_eq]
  infer_instance

instance : LawfulEqCmp cmp where
  eq_of_compare {a b} h := by
    simp only [cmp, Ordering.then_eq_eq, LawfulEqCmp.compare_eq_iff_eq] at h
    obtain ⟨hmajor, hminor, hpatch, hpre, hbuild⟩ := h
    cases a
    cases b
    simp_all

theorem max_comm (a b : Version) : a.max b = b.max a := by
  unfold max le
  cases h : a.cmp b with
  | lt => simp [OrientedCmp.gt_of_lt h]
  | eq => simp [LawfulEqCmp.eq_of_compare h]
  | gt => simp [OrientedCmp.lt_of_gt h]

theorem min_comm (a b : Version) : a.min b = b.min a := by
  unfold min le
  cases h : a.cmp b with
  | lt => simp [OrientedCmp.gt_of_lt h]
  | eq => simp [LawfulEqCmp.eq_of_compare h]
  | gt => simp [OrientedCmp.lt_of_gt h]

end Version

namespace Bound

theorem tighterLower_comm (a b : Bound) : a.tighterLower b = b.tighterLower a := by
  cases a <;> cases b <;> simp [tighterLower, Version.max_comm]

theorem tighterUpper_comm (a b : Bound) : a.tighterUpper b = b.tighterUpper a := by
  cases a <;> cases b <;> simp [tighterUpper, Version.min_comm]

end Bound

namespace VersionRange

theorem intersect_comm (a b : VersionRange) : a.intersect b = b.intersect a := by
  simp only [intersect, Bound.tighterLower_comm a.lower, Bound.tighterUpper_comm a.upper]

theorem isDisjoint_comm (a b : VersionRange) : a.isDisjoint b = b.isDisjoint a := by
  simp only [isDisjoint, intersect_comm a b]

end VersionRange
end Instrumentation
