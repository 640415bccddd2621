import Instrumentation.Proofs.Requirements
import Instrumentation.Proofs.WrittenVersions

/-!
The versions at the ends of a range. A range that is read has ends that its text names as loose
versions, or ends without build labels that the numbers of a requirement stand for.
-/
namespace Instrumentation

/-- The version a bound stands at, if it has one. -/
def Bound.version? : Bound → Option Version
  | unbounded => none
  | included v => some v
  | excluded v => some v

theorem Bound.tighterLower_eq (a b : Bound) : a.tighterLower b = a ∨ a.tighterLower b = b := by
  rcases max_choice a.lowerCut b.lowerCut with h | h
  · exact .inl (lowerCut_injective ((lowerCut_tighterLower a b).trans h))
  · exact .inr (lowerCut_injective ((lowerCut_tighterLower a b).trans h))

theorem Bound.tighterUpper_eq (a b : Bound) : a.tighterUpper b = a ∨ a.tighterUpper b = b := by
  rcases min_choice a.upperCut b.upperCut with h | h
  · exact .inl (upperCut_injective ((upperCut_tighterUpper a b).trans h))
  · exact .inr (upperCut_injective ((upperCut_tighterUpper a b).trans h))

namespace VersionRange

/-- The versions at the ends of a range. -/
def ends (r : VersionRange) : List Version :=
  r.lower.version?.toList ++ r.upper.version?.toList

variable {r : VersionRange} {v : Version}

theorem mem_ends : v ∈ r.ends ↔ r.lower.version? = some v ∨ r.upper.version? = some v := by
  simp [ends]

/-- Ranges meet at ends of theirs. -/
theorem mem_ends_intersect {a b : VersionRange} (h : v ∈ (a.intersect b).ends) :
    v ∈ a.ends ∨ v ∈ b.ends := by
  simp only [mem_ends, intersect] at *
  rcases h with h | h
  · rcases Bound.tighterLower_eq a.lower b.lower with he | he
    · exact .inl (.inl (he ▸ h))
    · exact .inr (.inl (he ▸ h))
  · rcases Bound.tighterUpper_eq a.upper b.upper with he | he
    · exact .inl (.inr (he ▸ h))
    · exact .inr (.inr (he ▸ h))

end VersionRange

/-! ### Ends from a requirement -/

namespace Comparator

theorem next?_eq_some {n m : Nat} : next? n = some m ↔ n + 1 < componentBound ∧ m = n + 1 := by
  unfold next?
  split <;> simp_all [eq_comm]

variable {c : Comparator} {r : VersionRange} {v : Version}

/-- A comparator has a range only if its numbers have successors. -/
theorem hasSuccessors_of_range? (hc : c.WellFormed) (h : c.range? = some r) : c.HasSuccessors := by
  obtain ⟨op, major, _ | minor, _ | patch, pre⟩ := c
  case none.some => exact absurd rfl (hc.minor (by simp))
  all_goals
    simp only [range?, Option.bind_eq_bind, Option.bind_eq_some_iff, next?_eq_some] at h
  case none.none =>
    obtain ⟨_, ⟨hmajor, -⟩, -⟩ := h
    exact ⟨hmajor, by simp, by simp⟩
  case some.none =>
    obtain ⟨_, ⟨hmajor, -⟩, _, ⟨hminor, -⟩, -⟩ := h
    exact ⟨hmajor, by simpa using hminor, by simp⟩
  case some.some =>
    obtain ⟨_, ⟨hmajor, -⟩, _, ⟨hminor, -⟩, _, _, _, ⟨hpatch, -⟩, -⟩ := h
    exact ⟨hmajor, by simpa using hminor, by simpa using hpatch⟩

theorem mem_ends_bounds (h : v ∈ c.bounds.ends) :
    v = c.base ∨ v = c.afterMajor ∨ v = c.afterMinor ∨ v = c.afterGiven := by
  have hcompatible : c.afterCompatible = c.afterMajor ∨ c.afterCompatible = c.afterMinor ∨
      c.afterCompatible = c.afterGiven := by
    unfold afterCompatible
    split <;> simp
  rw [VersionRange.mem_ends, bounds] at h
  grind [Bound.version?]

/-- The numbers that are given are in bounds. -/
structure InBounds (c : Comparator) : Prop where
  major : c.major < componentBound
  minor : ∀ n ∈ c.minor, n < componentBound
  patch : ∀ n ∈ c.patch, n < componentBound

theorem HasSuccessors.inBounds (h : c.HasSuccessors) : c.InBounds where
  major := Nat.lt_of_succ_lt h.major
  minor n hn := Nat.lt_of_succ_lt (h.minor n hn)
  patch n hn := Nat.lt_of_succ_lt (h.patch n hn)

theorem InBounds.valid_base (h : c.InBounds) (hpre : ∀ l ∈ c.pre, l.Valid) : c.base.Valid := by
  have hzero : 0 < componentBound := by decide
  refine ⟨h.major, ?_, ?_, hpre, by simp [base]⟩
  · cases hm : c.minor with
    | none => simpa [base, hm] using hzero
    | some minor => simpa [base, hm] using h.minor minor hm
  · cases hp : c.patch with
    | none => simpa [base, hp] using hzero
    | some patch => simpa [base, hp] using h.patch patch hp

/-- The bounds of a comparator with numbers that have successors stand at valid versions. -/
theorem HasSuccessors.valid_of_mem_ends (h : c.HasSuccessors) (hpre : ∀ l ∈ c.pre, l.Valid)
    (hv : v ∈ c.bounds.ends) : v.Valid ∧ v.build = [] := by
  have hzero : 0 < componentBound := by decide
  obtain ⟨hmajor, hminor, -⟩ := h.inBounds
  have hafterMajor : c.afterMajor.Valid := Version.valid_release h.major hzero hzero
  have hafterMinor : c.afterMinor.Valid ∧ c.afterMinor.build = [] := by
    unfold afterMinor
    split
    · next minor hm => exact ⟨Version.valid_release hmajor (h.minor minor hm) hzero, rfl⟩
    · exact ⟨hafterMajor, rfl⟩
  have hafterGiven : c.afterGiven.Valid ∧ c.afterGiven.build = [] := by
    unfold afterGiven
    split
    · next minor patch hm hp =>
      exact ⟨Version.valid_release hmajor (hminor minor hm) (h.patch patch hp), rfl⟩
    · exact hafterMinor
  rcases mem_ends_bounds hv with rfl | rfl | rfl | rfl
  · exact ⟨h.inBounds.valid_base hpre, rfl⟩
  · exact ⟨hafterMajor, rfl⟩
  · exact hafterMinor
  · exact hafterGiven

theorem valid_pre_of_read {cs rest : List Char} {part : VersionPart}
    (h : read cs = .ok (c, part, rest)) : ∀ l ∈ c.pre, l.Valid := by
  obtain ⟨_, _, _, _, _, _, _, pre, _, _, _, hpre, rfl⟩ := read_eq_ok h
  dsimp only
  by_cases hne : pre = []
  · simp [hne]
  · obtain ⟨-, cs₄, cs₅, hread⟩ := hpre hne
    exact Version.valid_of_readPre hread

end Comparator

namespace VersionRange

variable {r : VersionRange} {v : Version}

theorem mem_ends_of_foldlM {req : Requirement} {range : VersionRange}
    (h : req.foldlM narrow? range = some r) (hv : v ∈ r.ends) :
    v ∈ range.ends ∨ ∃ c ∈ req, ∃ own, c.range? = some own ∧ v ∈ own.ends := by
  induction req generalizing range with
  | nil =>
    cases h
    exact .inl hv
  | cons c rest ih =>
    rw [List.foldlM_cons, Option.bind_eq_bind, Option.bind_eq_some_iff] at h
    obtain ⟨narrowed, hnarrow, h⟩ := h
    obtain ⟨own, hown, rfl⟩ := Option.map_eq_some_iff.mp hnarrow
    rcases ih h with hends | ⟨d, hd, hends⟩
    · rcases mem_ends_intersect hends with hends | hends
      · exact .inl hends
      · exact .inr ⟨c, by simp, own, hown, hends⟩
    · exact .inr ⟨d, by simp [hd], hends⟩

theorem mem_ends_of_ofRequirement? {req : Requirement} (h : ofRequirement? req = some r)
    (hv : v ∈ r.ends) : ∃ c ∈ req, ∃ own, c.range? = some own ∧ v ∈ own.ends := by
  rw [ofRequirement?_eq] at h
  rcases mem_ends_of_foldlM h hv with hends | hends
  · cases hends
  · exact hends

/-- The ends of a requirement's range are valid, and no build labels stand in them. -/
theorem valid_of_requirement {cs : List Char} {req : Requirement}
    (hreq : Requirement.read cs = .ok req)
    (h : ofRequirement? req = some r) (hv : v ∈ r.ends) : v.Valid ∧ v.build = [] := by
  obtain ⟨c, hc, range, hrange, hv⟩ := mem_ends_of_ofRequirement? h hv
  obtain ⟨_, _, _, hread⟩ := Requirement.exists_read hreq hc
  have hsucc := Comparator.hasSuccessors_of_range? (Comparator.wellFormed_of_read hread) hrange
  rw [hsucc.range?_eq] at hrange
  cases hrange
  exact hsucc.valid_of_mem_ends (Comparator.valid_pre_of_read hread) hv

/-! ### Ends from an interval -/

theorem readLoose_of_readBound {closed : Bool} {cs : List Char} {b : Bound}
    (h : readBound closed cs = .ok b) (hv : b.version? = some v) :
    Version.readLoose (String.ofList (Text.trim cs)) = .ok v := by
  unfold readBound at h
  split at h
  · cases h
    cases hv
  · split at h
    · next w hread =>
      cases h
      obtain rfl : w = v := by cases closed <;> exact Option.some.inj hv
      exact hread
    · cases h

/-- An interval is read from two bounds with a comma between them, and it is not empty. -/
theorem readInterval_eq_ok_iff {cs : List Char} : readInterval cs = .ok r ↔
    (cs.getLast?.getD ')' = ']' ∨ cs.getLast?.getD ')' = ')') ∧
      ∃ lo hi, Text.cut ',' (cs.drop 1).dropLast = some (lo, hi) ∧
        readBound (cs.head? == some '[') lo = .ok r.lower ∧
        readBound (cs.getLast?.getD ')' == ']') hi = .ok r.upper ∧ r.isEmpty = false := by
  unfold readInterval
  extract_lets text close finish
  have hfinish : finish () = .ok r ↔ ∃ lo hi, Text.cut ',' (cs.drop 1).dropLast = some (lo, hi) ∧
      readBound (cs.head? == some '[') lo = .ok r.lower ∧
      readBound (close == ']') hi = .ok r.upper ∧ r.isEmpty = false := by
    dsimp -zeta only [finish]
    cases Text.cut ',' (cs.drop 1).dropLast with
    | none => simp [throw, throwThe, MonadExceptOf.throw]
    | some halves =>
      obtain ⟨lo, hi⟩ := halves
      simp only [bind_eq_ok_iff, Option.some.injEq, Prod.mk.injEq]
      constructor
      · rintro ⟨lower, hlower, upper, hupper, h⟩
        split at h
        · cases h
        · next hempty =>
          cases h
          exact ⟨lo, hi, ⟨rfl, rfl⟩, hlower, hupper, by simpa using hempty⟩
      · rintro ⟨_, _, ⟨rfl, rfl⟩, hlower, hupper, hempty⟩
        exact ⟨_, hlower, _, hupper, if_neg (by simp [hempty])⟩
  have hlast : cs.getLast?.getD ')' = close := rfl
  rw [hlast]
  clear_value finish close
  by_cases hclose : close = ']' ∨ close = ')'
  · rw [if_neg (by grind), hfinish]
    simp only [hclose, true_and]
  · rw [if_pos (by grind)]
    simp only [hclose, false_and, iff_false]
    intro h
    cases h

/-- The ends of an interval are read from parts of its text. -/
theorem exists_of_readInterval {cs : List Char} (h : readInterval cs = .ok r) (hv : v ∈ r.ends) :
    ∃ part, part ⊆ cs ∧ Version.readLoose (String.ofList part) = .ok v := by
  obtain ⟨-, lo, hi, hcut, hlower, hupper, -⟩ := readInterval_eq_ok_iff.mp h
  have hinner : lo ++ ',' :: hi ⊆ cs := by
    rw [← Text.cut_eq_some hcut]
    exact List.Subset.trans (List.dropLast_subset _) (List.drop_subset 1 cs)
  rw [List.append_subset] at hinner
  rcases mem_ends.mp hv with hv | hv
  · exact ⟨_, List.Subset.trans (Text.trim_subset lo) hinner.1, readLoose_of_readBound hlower hv⟩
  · exact ⟨_, List.Subset.trans (Text.trim_subset hi) (List.subset_of_cons_subset hinner.2),
      readLoose_of_readBound hupper hv⟩

/-- A text that is read is blank or a star, or an interval, or a requirement that leaves something. -/
theorem cases_of_read {s : String} (h : read s = .ok r) :
    r = any ∨ readInterval (Text.trim s.toList) = .ok r ∨
      ∃ req, Requirement.read (Text.trim s.toList) = .ok req ∧ ofRequirement? req = some r ∧
        r.isEmpty = false := by
  unfold read at h
  dsimp only at h
  split at h
  · cases h
    exact .inl rfl
  · cases h
    exact .inl rfl
  · split at h
    · exact .inr (.inl h)
    · split at h
      · cases h
      · next req hreq =>
        split at h
        · cases h
        · next range hrange =>
          split at h
          · cases h
          · next hempty =>
            cases h
            exact .inr (.inr ⟨req, hreq, hrange, by simpa using hempty⟩)

/-- An end of a range that is read stands in its text, or it is a valid version without build labels
that a requirement names. -/
theorem mem_ends_of_read {s : String} (h : read s = .ok r) (hv : v ∈ r.ends) :
    (∃ part, part ⊆ s.toList ∧ Version.readLoose (String.ofList part) = .ok v) ∨
      v.Valid ∧ v.build = [] := by
  rcases cases_of_read h with rfl | hinterval | ⟨req, hreq, hrange, -⟩
  · cases hv
  · obtain ⟨part, hpart, hread⟩ := exists_of_readInterval hinterval hv
    exact .inl ⟨part, List.Subset.trans hpart (Text.trim_subset _), hread⟩
  · exact .inr (valid_of_requirement hreq hrange hv)

/-- An interval or a requirement that leaves nothing is refused. -/
theorem isEmpty_of_read {s : String} (h : read s = .ok r) : r.isEmpty = false := by
  rcases cases_of_read h with rfl | hinterval | ⟨-, -, -, hempty⟩
  · rfl
  · obtain ⟨-, _, _, -, -, -, hempty⟩ := readInterval_eq_ok_iff.mp hinterval
    exact hempty
  · exact hempty

end VersionRange
end Instrumentation
