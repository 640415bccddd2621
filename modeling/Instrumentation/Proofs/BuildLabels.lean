import Instrumentation.Proofs.LooseVersions
import Instrumentation.Proofs.RangeEnds

/-!
Builds of one version against a range. The order of versions puts a version right below its builds,
so a range whose ends have no build labels parts a version from its builds where the version is its
open lower end or its closed upper end, and only there (`contains_eq_iff_of_builds`).
-/
namespace Instrumentation

namespace Version

/-- The version without its build labels. -/
def withoutBuild (v : Version) : Version := { v with build := [] }

@[simp] theorem core_withoutBuild (v : Version) : v.withoutBuild.core = v.core := rfl

@[simp] theorem pre_withoutBuild (v : Version) : v.withoutBuild.pre = v.pre := rfl

@[simp] theorem build_withoutBuild (v : Version) : v.withoutBuild.build = [] := rfl

variable {v w : Version}

theorem eq_withoutBuild_iff (hw : w.build = []) :
    w = v.withoutBuild ↔ w.core = v.core ∧ w.pre = v.pre := by
  constructor
  · rintro rfl
    exact ⟨rfl, rfl⟩
  · rintro ⟨hcore, hpre⟩
    obtain ⟨hmajor, hminor, hpatch⟩ := core_eq_core.mp hcore
    cases w
    simp_all [withoutBuild]

/-- A version lies below one without build labels if it does without its own. -/
theorem lt_plain_iff (hw : w.build = []) : v < w ↔ v.withoutBuild < w := by
  simp only [lt_iff_core, core_withoutBuild, pre_withoutBuild, build_withoutBuild, hw,
    cmpBuild_nil_right]
  split <;> simp

/-- A version without build labels lies below what it lies below without build labels, and below its
own builds. -/
theorem plain_lt_iff (hw : w.build = []) :
    w < v ↔ w < v.withoutBuild ∨ w = v.withoutBuild ∧ v.build ≠ [] := by
  rw [eq_withoutBuild_iff hw]
  simp only [lt_iff_core, core_withoutBuild, pre_withoutBuild, build_withoutBuild, hw,
    cmpBuild_nil_left]
  by_cases hv : v.build = []
  · simp [hv]
  · simp [hv, or_assoc, and_or_left]

theorem plus_mem_text (hv : v.build ≠ []) : '+' ∈ v.text.toList := by
  rw [toList_text]
  simp [marked, hv]

end Version

namespace Bound

variable {b : Bound} {v : Version}

/-- A bound stands at a version without build labels, if at any. -/
def Plain (b : Bound) : Prop := ∀ w ∈ b.version?, w.build = []

/-- A lower bound tells a version from its builds where it is open at the version. -/
theorem Plain.admitsAbove_iff (hb : b.Plain) : b.admitsAbove v = true ↔
    b.admitsAbove v.withoutBuild = true ∨ b = .excluded v.withoutBuild ∧ v.build ≠ [] := by
  cases b with
  | unbounded => simp [admitsAbove]
  | included lo =>
    simp only [admitsAbove, Version.le_iff, reduceCtorEq, false_and, or_false]
    rw [← not_lt, ← not_lt, Version.lt_plain_iff (hb lo rfl)]
  | excluded lo =>
    simp only [admitsAbove, Version.lt_iff, excluded.injEq]
    exact Version.plain_lt_iff (hb lo rfl)

/-- An upper bound tells a version from its builds where it is closed at the version. -/
theorem Plain.admitsBelow_iff (hb : b.Plain) : b.admitsBelow v = true ↔
    b.admitsBelow v.withoutBuild = true ∧ ¬ (b = .included v.withoutBuild ∧ v.build ≠ []) := by
  cases b with
  | unbounded => simp [admitsBelow]
  | included hi =>
    simp only [admitsBelow, Version.le_iff, included.injEq]
    rw [← not_lt, ← not_lt, Version.plain_lt_iff (hb hi rfl), not_or]
  | excluded hi =>
    simp only [admitsBelow, Version.lt_iff, reduceCtorEq, false_and, not_false_eq_true, and_true]
    exact Version.lt_plain_iff (hb hi rfl)

end Bound

namespace VersionRange

variable {r : VersionRange} {v : Version}

/-- No build labels stand at the ends of the range. -/
structure Plain (r : VersionRange) : Prop where
  lower : r.lower.Plain
  upper : r.upper.Plain

theorem plain_iff : r.Plain ↔ ∀ v ∈ r.ends, v.build = [] := by
  constructor
  · rintro ⟨hlower, hupper⟩ v hv
    rcases mem_ends.mp hv with hv | hv
    · exact hlower v hv
    · exact hupper v hv
  · intro h
    exact ⟨fun v hv => h v (mem_ends.mpr (.inl hv)), fun v hv => h v (mem_ends.mpr (.inr hv))⟩

/-- An open lower end is not in the range, but a range that is not empty goes on behind it. -/
theorem admits_of_lower {w : Version} (hempty : r.isEmpty = false) (h : r.lower = .excluded w) :
    ¬ r.lower.admitsAbove w = true ∧ r.upper.admitsBelow w = true ∧ r.upper ≠ .included w := by
  have hroom : Cut.above w < r.upper.upperCut := by
    rw [← not_le]
    intro hcross
    rw [isEmpty_iff.mpr (h ▸ hcross)] at hempty
    cases hempty
  refine ⟨by simp [h, Bound.admitsAbove], Bound.admitsBelow_iff.mpr hroom.le, ?_⟩
  intro hupper
  rw [hupper] at hroom
  exact lt_irrefl _ hroom

/-- A closed upper end is in a range that is not empty. -/
theorem admits_of_upper {w : Version} (hempty : r.isEmpty = false) (h : r.upper = .included w) :
    r.lower.admitsAbove w = true ∧ r.upper.admitsBelow w = true := by
  have hroom : ¬ Cut.above w ≤ r.lower.lowerCut := by
    intro hcross
    rw [isEmpty_iff.mpr (h ▸ hcross)] at hempty
    cases hempty
  refine ⟨?_, by simp [h, Bound.admitsBelow]⟩
  cases hlower : r.lower with
  | unbounded => rfl
  | included lo => simpa [hlower, Bound.lowerCut, Bound.admitsAbove] using hroom
  | excluded lo => simpa [hlower, Bound.lowerCut, Bound.admitsAbove] using hroom

/-- What a range without build labels at its ends contains, by the version without its own. -/
theorem Plain.contains_iff (hr : r.Plain) : r.contains v = true ↔
    (r.lower.admitsAbove v.withoutBuild = true ∨
      r.lower = .excluded v.withoutBuild ∧ v.build ≠ []) ∧
    r.upper.admitsBelow v.withoutBuild = true ∧
      ¬ (r.upper = .included v.withoutBuild ∧ v.build ≠ []) := by
  rw [contains, Bool.and_eq_true, hr.lower.admitsAbove_iff, hr.upper.admitsBelow_iff]

/-- A text without a plus has no build labels to put at the ends of a range, and a requirement leaves
its build labels out. -/
theorem plain_of_read {s : String} (h : read s = .ok r)
    (hs : '+' ∉ s.toList ∨ ∃ req, Requirement.read (Text.trim s.toList) = .ok req) : r.Plain := by
  rw [plain_iff]
  intro v hv
  rcases hs with hplus | ⟨req, hreq⟩
  · rcases mem_ends_of_read h hv with ⟨part, hpart, hloose⟩ | ⟨-, hbuild⟩
    · rcases Version.full_or_valid_of_readLoose hloose with ⟨bare, hbare, hfull⟩ | ⟨-, hbuild⟩
      · by_contra hbuild
        obtain ⟨-, rfl⟩ := Version.readFull_eq_ok_iff.mp hfull
        exact hplus (hpart (by simpa using hbare (Version.plus_mem_text hbuild)))
      · exact hbuild
    · exact hbuild
  · exact (valid_of_requirement hreq ((read_eq_ok_iff hreq).mp h).1 hv).2

/-- Versions that differ in their builds alone are told apart by a range without build labels at its
ends just if one of them has no build labels and is the open lower or the closed upper end. -/
theorem contains_eq_iff_of_builds {s : String} (h : read s = .ok r) :
    ('+' ∉ s.toList ∨ (∃ req, Requirement.read (Text.trim s.toList) = .ok req) → r.Plain)
    ∧ (r.Plain → ∀ v w : Version, v.withoutBuild = w.withoutBuild →
      (r.contains v = r.contains w ↔ (v.build = [] ↔ w.build = []) ∨
        r.lower ≠ .excluded v.withoutBuild ∧ r.upper ≠ .included v.withoutBuild)) := by
  refine ⟨plain_of_read h, fun hr v w hvw => ?_⟩
  have hlower := admits_of_lower (w := v.withoutBuild) (isEmpty_of_read h)
  have hupper := admits_of_upper (w := v.withoutBuild) (isEmpty_of_read h)
  rw [Bool.eq_iff_iff, hr.contains_iff (v := v), hr.contains_iff (v := w), ← hvw]
  -- The two ends cannot both stand at the version: the range would be empty.
  by_cases hopen : r.lower = .excluded v.withoutBuild
  · obtain ⟨habove, hbelow, hclosed⟩ := hlower hopen
    grind
  · by_cases hclosed : r.upper = .included v.withoutBuild
    · obtain ⟨habove, hbelow⟩ := hupper hclosed
      grind
    · simp [hopen, hclosed]

def release : Version := { major := 0, minor := 14, patch := 0 }

/-- A package of the release, named with the version of the library that it wraps. -/
def builtRelease : Version := { release with build := [.number 0 1, .number 0 5, .number 1 0] }

/-- A range from the release on does not tell it from its builds; one up to it does. -/
theorem builtRelease_contains_eq_iff :
    read "^0.14" = .ok ⟨.included release, .excluded ⟨0, 15, 0, [], []⟩⟩
    ∧ (⟨.included release, .excluded ⟨0, 15, 0, [], []⟩⟩ : VersionRange).contains release
      = (⟨.included release, .excluded ⟨0, 15, 0, [], []⟩⟩ : VersionRange).contains builtRelease
    ∧ read "[,0.14]" = .ok ⟨.unbounded, .included release⟩
    ∧ (⟨.unbounded, .included release⟩ : VersionRange).contains release
      ≠ (⟨.unbounded, .included release⟩ : VersionRange).contains builtRelease := by
  have hfrom : read "^0.14" = .ok ⟨.included release, .excluded ⟨0, 15, 0, [], []⟩⟩ := rfl
  have hto : read "[,0.14]" = .ok ⟨.unbounded, .included release⟩ := rfl
  obtain ⟨hplain, halike⟩ := contains_eq_iff_of_builds hfrom
  obtain ⟨hplain', halike'⟩ := contains_eq_iff_of_builds hto
  refine ⟨hfrom, ?_, hto, ?_⟩
  · exact (halike (hplain (.inl (by decide))) _ _ rfl).mpr (.inr (by decide))
  · have hends := halike' (hplain' (.inl (by decide))) release builtRelease rfl
    exact mt hends.mp (by decide)

/-- A requirement of just the release refuses its builds, which the order of versions puts behind
it. -/
theorem builtRelease_refused : ¬ ∀ (s : String) (r : VersionRange), '+' ∉ s.toList →
    read s = .ok r → ∀ v w : Version, v.withoutBuild = w.withoutBuild →
      r.contains v = r.contains w := by
  intro h
  have hexact : read "=0.14.0" = .ok ⟨.included release, .included release⟩ := rfl
  have halike := h "=0.14.0" _ (by decide) hexact release builtRelease rfl
  revert halike
  decide

end VersionRange
end Instrumentation
