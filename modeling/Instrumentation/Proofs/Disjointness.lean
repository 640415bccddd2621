import Instrumentation.Proofs.LooseVersions
import Instrumentation.Proofs.RangeEnds

/-!
What lies between two ends. Ranges are taken to be disjoint by their ends alone, but versions do not
lie dense: there is a first one of all, and after each version a next one (`Version.next_le`). So a
lower end lets in a first version (`Bound.start`), and ranges that are not taken to be disjoint have
no version in common where the upper end of their meet stands open at it (`VersionRange.meet_iff`).
-/
namespace Instrumentation

open Std (OrientedCmp ReflCmp)

namespace BuildLabel

/-- The first build label. -/
def zero : BuildLabel := .number 1 0

theorem valid_zero : zero.Valid := .inl Nat.one_ne_zero

theorem isLE_cmp_zero {l : BuildLabel} (hl : l.Valid) : (zero.cmp l).isLE = true := by
  cases l with
  | word s => rfl
  | number zeros value =>
    cases value with
    | succ n => simp [zero, cmp, Nat.compare_eq_lt.mpr n.succ_pos]
    | zero =>
      have hzeros : 1 ≤ zeros := by
        simp only [Valid, ne_eq, not_true_eq_false, or_false] at hl
        omega
      simpa [zero, cmp, Nat.isLE_compare] using hzeros

end BuildLabel

namespace Version

variable {v w : Version}

/-! ### The version right behind another one -/

theorem cmpBuild_concat (a : List BuildLabel) (l : BuildLabel) : cmpBuild a (a ++ [l]) = .lt := by
  induction a with
  | nil => rfl
  | cons x a ih =>
    have hself : x.cmp x = .eq := ReflCmp.compare_self
    simpa [cmpBuild, List.compareLex_cons_cons, hself] using ih

/-- What comes after a row of build labels does not come before the same row with one more, the
first. -/
theorem isLE_cmpBuild_concat {a b : List BuildLabel} (hb : ∀ l ∈ b, l.Valid)
    (h : cmpBuild a b = .lt) : (cmpBuild (a ++ [.zero]) b).isLE = true := by
  induction a generalizing b with
  | nil =>
    cases b with
    | nil => cases h
    | cons l rest =>
      have hfirst := BuildLabel.isLE_cmp_zero (hb l (by simp))
      have hrest : (cmpBuild [] rest).isLE = true := by cases rest <;> rfl
      simp only [cmpBuild, List.nil_append, List.compareLex_cons_cons] at hrest ⊢
      cases hcmp : BuildLabel.zero.cmp l <;> simp_all
  | cons x a ih =>
    cases b with
    | nil => cases h
    | cons y rest =>
      rw [List.forall_mem_cons] at hb
      simp only [cmpBuild, List.cons_append, List.compareLex_cons_cons] at ih h ⊢
      cases hcmp : x.cmp y with
      | lt => rfl
      | eq => simpa [hcmp] using ih hb.2 (by simpa [hcmp] using h)
      | gt => simp [hcmp] at h

/-- The version right behind this one: with one more build label, the first. -/
def next (v : Version) : Version := { v with build := v.build ++ [.zero] }

theorem Valid.next (hv : v.Valid) : v.next.Valid where
  __ := hv
  build := by
    simp only [Version.next, List.mem_append, List.mem_singleton]
    rintro l (hl | rfl)
    · exact hv.build l hl
    · exact BuildLabel.valid_zero

theorem lt_next (v : Version) : v < v.next :=
  lt_iff_core.mpr (.inr ⟨rfl, .inr ⟨rfl, cmpBuild_concat v.build .zero⟩⟩)

/-- Nothing lies between a version and the next one. -/
theorem next_le (hw : w.Valid) (h : v < w) : v.next ≤ w := by
  rcases lt_iff_core.mp h with hcore | ⟨hcore, hpre | ⟨hpre, hbuild⟩⟩
  · exact le_of_lt (lt_iff_core.mpr (.inl hcore))
  · exact le_of_lt (lt_iff_core.mpr (.inr ⟨hcore, .inl hpre⟩))
  · have hle := isLE_cmpBuild_concat hw.build hbuild
    cases hcmp : cmpBuild v.next.build w.build with
    | lt => exact le_of_lt (lt_iff_core.mpr (.inr ⟨hcore, .inr ⟨hpre, hcmp⟩⟩))
    | eq =>
      have heq := Std.LawfulEqCmp.eq_of_compare hcmp
      obtain ⟨hmajor, hminor, hpatch⟩ := core_eq_core.mp hcore
      apply le_of_eq
      cases v
      cases w
      simp_all [Version.next]
    | gt =>
      rw [show cmpBuild (v.build ++ [.zero]) w.build = .gt from hcmp] at hle
      cases hle

/-! ### The first version -/

/-- The first version of all. -/
def first : Version := { major := 0, minor := 0, patch := 0, pre := [.number 0] }

theorem valid_first : first.Valid where
  major_lt := by decide
  minor_lt := by decide
  patch_lt := by decide
  pre := by simp [first, PreLabel.Valid]
  build := by simp [first]

theorem isLE_cmpPre_first (labels : List PreLabel) : (cmpPre first.pre labels).isLE = true := by
  cases labels with
  | nil => rfl
  | cons l rest =>
    have hrest : (List.compareLex PreLabel.cmp [] rest).isLE = true := by cases rest <;> rfl
    change (List.compareLex PreLabel.cmp [.number 0] (l :: rest)).isLE = true
    rw [List.compareLex_cons_cons]
    cases l with
    | word s => rfl
    | number n =>
      cases n with
      | zero => exact hrest
      | succ n => simp [PreLabel.cmp, Nat.compare_eq_lt.mpr n.succ_pos]

theorem first_le (v : Version) : first ≤ v := by
  rw [← not_lt]
  intro hlt
  rcases lt_iff_core.mp hlt with hcore | ⟨-, hpre | ⟨-, hbuild⟩⟩
  · rw [core_lt_core] at hcore
    simp [first] at hcore
  · have hle := isLE_cmpPre_first v.pre
    rw [OrientedCmp.gt_of_lt hpre] at hle
    cases hle
  · have hbuild : cmpBuild v.build [] = .lt := hbuild
    rw [cmpBuild_nil_right] at hbuild
    split at hbuild <;> cases hbuild

end Version

namespace Bound

variable {b lower upper : Bound} {v w : Version}

/-- The first version that the bound lets in from below. -/
def start : Bound → Version
  | .unbounded => .first
  | .included v => v
  | .excluded v => v.next

theorem valid_start (hb : ∀ v, b.version? = some v → v.Valid) : b.start.Valid := by
  cases b with
  | unbounded => exact Version.valid_first
  | included v => exact hb v rfl
  | excluded v => exact (hb v rfl).next

theorem admitsAbove_start (b : Bound) : b.admitsAbove b.start = true := by
  cases b with
  | unbounded => rfl
  | included v => exact Version.le_iff.mpr le_rfl
  | excluded v => exact Version.lt_iff.mpr v.lt_next

theorem start_le (hv : v.Valid) (h : b.admitsAbove v = true) : b.start ≤ v := by
  cases b with
  | unbounded => exact v.first_le
  | included w => exact Version.le_iff.mp h
  | excluded w => exact Version.next_le hv (Version.lt_iff.mp h)

theorem admitsBelow_of_le (hle : v ≤ w) (h : b.admitsBelow w = true) : b.admitsBelow v = true := by
  cases b with
  | unbounded => rfl
  | included u => exact Version.le_iff.mpr (hle.trans (Version.le_iff.mp h))
  | excluded u => exact Version.lt_iff.mpr (hle.trans_lt (Version.lt_iff.mp h))

/-- Where the ends do not cross, the first version that the lower one lets in is not behind the
upper one. -/
theorem start_le_upper {hi : Version} (hhi : hi.Valid)
    (hroom : lower.lowerCut < Cut.above hi) : lower.start ≤ hi := by
  rw [← not_le] at hroom
  cases lower with
  | unbounded => exact hi.first_le
  | included lo =>
    rw [lowerCut, Cut.above_le_below, not_lt] at hroom
    exact hroom
  | excluded lo =>
    rw [lowerCut, Cut.above_le_above, not_le] at hroom
    exact Version.next_le hhi hroom

end Bound

namespace VersionRange

variable {r a b : VersionRange}

theorem isEmpty_eq_false_iff : r.isEmpty = false ↔ r.lower.lowerCut < r.upper.upperCut := by
  rw [← Bool.not_eq_true, isEmpty_iff, not_le]

/-- A range with ends that can be written has a version in it just if the first version that its
lower end lets in is one. -/
theorem exists_contains_iff_start (hends : ∀ v ∈ r.ends, v.Valid) :
    (∃ v : Version, v.Valid ∧ r.contains v = true) ↔ r.contains r.lower.start = true := by
  constructor
  · rintro ⟨v, hv, hcontains⟩
    rw [contains, Bool.and_eq_true] at hcontains ⊢
    have hle : r.lower.start ≤ v := Bound.start_le hv hcontains.1
    exact ⟨r.lower.admitsAbove_start, Bound.admitsBelow_of_le hle hcontains.2⟩
  · intro hcontains
    exact ⟨_, Bound.valid_start fun v hv => hends v (mem_ends.mpr (.inl hv)), hcontains⟩

/-- It is one unless the ends cross, or the upper end is open there. -/
theorem contains_start_iff (hends : ∀ v ∈ r.ends, v.Valid) :
    r.contains r.lower.start = true ↔
      r.isEmpty = false ∧ r.upper ≠ .excluded r.lower.start := by
  constructor
  · intro hcontains
    refine ⟨?_, fun hupper => ?_⟩
    · by_contra hempty
      exact not_contains_of_isEmpty (by simpa using hempty) _ hcontains
    · rw [contains, hupper, Bool.and_eq_true] at hcontains
      exact lt_irrefl _ (Version.lt_iff.mp hcontains.2)
  · rintro ⟨hempty, hupper⟩
    rw [isEmpty_eq_false_iff] at hempty
    rw [contains, Bool.and_eq_true]
    refine ⟨r.lower.admitsAbove_start, ?_⟩
    have hvalid : ∀ v, r.upper.version? = some v → v.Valid :=
      fun v hv => hends v (mem_ends.mpr (.inr hv))
    cases heq : r.upper with
    | unbounded => rfl
    | included hi =>
      rw [heq] at hempty hvalid
      exact Version.le_iff.mpr (Bound.start_le_upper (hvalid hi rfl) hempty)
    | excluded hi =>
      rw [heq] at hempty hvalid hupper
      have hle := Bound.start_le_upper (hvalid hi rfl) (hempty.trans (Cut.below_lt_above hi))
      exact Version.lt_iff.mpr (lt_of_le_of_ne hle fun hstart => hupper (hstart ▸ rfl))

/-- The ends of a range that is read can be written. -/
theorem valid_of_mem_ends {s : String} (h : read s = .ok r) : ∀ v ∈ r.ends, v.Valid := by
  intro v hv
  rcases mem_ends_of_read h hv with ⟨part, -, hloose⟩ | ⟨hvalid, -⟩
  · exact Version.valid_of_readLoose hloose
  · exact hvalid

/-- There is a version in both of two ranges just if they are not taken to be disjoint and what they
have in common does not end, open, at the first version that its lower end lets in. -/
theorem meet_iff {s s' : String} (ha : read s = .ok a) (hb : read s' = .ok b) :
    (∃ v : Version, v.Valid ∧ a.contains v = true ∧ b.contains v = true) ↔
      a.isDisjoint b = false ∧
        (a.intersect b).upper ≠ .excluded (a.intersect b).lower.start := by
  have hends : ∀ v ∈ (a.intersect b).ends, v.Valid := by
    intro v hv
    rcases mem_ends_intersect hv with hv | hv
    · exact valid_of_mem_ends ha v hv
    · exact valid_of_mem_ends hb v hv
  simp only [← contains_intersect, isDisjoint]
  exact (exists_contains_iff_start hends).trans (contains_start_iff hends)

/-- After a release, and before its second build. -/
theorem meet_beforeSecondBuild :
    read "(1.0.0,]" = .ok ⟨.excluded firstMajor, .unbounded⟩
    ∧ read "[,1.0.0+0.0)" = .ok ⟨.unbounded, .excluded firstMajor.next.next⟩
    ∧ ∃ v : Version, v.Valid
      ∧ (⟨.excluded firstMajor, .unbounded⟩ : VersionRange).contains v = true
      ∧ (⟨.unbounded, .excluded firstMajor.next.next⟩ : VersionRange).contains v = true := by
  have hafter : read "(1.0.0,]" = .ok ⟨.excluded firstMajor, .unbounded⟩ := rfl
  have hbefore : read "[,1.0.0+0.0)" = .ok ⟨.unbounded, .excluded firstMajor.next.next⟩ := rfl
  exact ⟨hafter, hbefore, (meet_iff hafter hbefore).mpr ⟨by decide, by decide⟩⟩

/-- After a release, and before its first build, there is no version, but the two ranges are not
taken to be disjoint. -/
theorem beforeFirstBuild_not_disjoint : ¬ ∀ (s s' : String) (a b : VersionRange),
    read s = .ok a → read s' = .ok b → a.isDisjoint b = false →
      ∃ v : Version, v.Valid ∧ a.contains v = true ∧ b.contains v = true := by
  intro h
  have hafter : read "(1.0.0,]" = .ok ⟨.excluded firstMajor, .unbounded⟩ := rfl
  have hbefore : read "[,1.0.0+0)" = .ok ⟨.unbounded, .excluded firstMajor.next⟩ := rfl
  obtain ⟨v, hv, habove, hbelow⟩ := h _ _ _ _ hafter hbefore (by decide)
  have hlt : firstMajor < v := by
    simpa [contains, Bound.admitsAbove, Bound.admitsBelow] using habove
  have hlt' : v < firstMajor.next := by
    simpa [contains, Bound.admitsAbove, Bound.admitsBelow] using hbelow
  exact absurd (Version.next_le hv hlt) (not_le.mpr hlt')

end VersionRange
end Instrumentation
