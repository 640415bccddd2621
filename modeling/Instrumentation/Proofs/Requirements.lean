import Instrumentation.Proofs.Outcome
import Instrumentation.Proofs.VersionRanges

/-!
What requirements mean. A comparator is judged number by number, by rules of its own for each
operator; a range is judged by the order of versions alone. On released versions the two agree: a
range that is read from a requirement contains the releases that all comparators admit
(`contains_iff_admitted`).
-/
namespace Instrumentation

namespace Version

/-- A released version has no prerelease labels and no build labels. -/
structure IsRelease (v : Version) : Prop where
  pre : v.pre = []
  build : v.build = []

/-- A release is below the versions with greater numbers, and below no prerelease of its own. -/
theorem IsRelease.lt_iff {v w : Version} (hv : v.IsRelease) (hw : w.build = []) :
    v < w ↔ v.core < w.core := by
  grind [lt_iff_core, cmpPre_nil_left, cmpBuild_nil_left, hv.pre, hv.build]

/-- A release is above the versions with smaller numbers, and above its own prereleases. -/
theorem IsRelease.gt_iff {v w : Version} (hv : v.IsRelease) (hw : w.build = []) :
    w < v ↔ w.core < v.core ∨ w.core = v.core ∧ w.pre ≠ [] := by
  grind [lt_iff_core, cmpPre_nil_right, cmpBuild_nil_left, hv.pre, hv.build]

end Version

namespace Comparator

/-! ### The rules for single versions -/

/-- The version has the numbers that are given, and the prerelease. -/
def agrees (c : Comparator) (v : Version) : Bool :=
  v.major == c.major && c.minor.all (v.minor == ·) && c.patch.all (v.patch == ·) && v.pre == c.pre

/-- The version lies above the numbers that are given, and the prerelease. Above numbers that leave
some open lies no version that has them. -/
def hasAbove (c : Comparator) (v : Version) : Bool :=
  if v.major ≠ c.major then c.major < v.major
  else match c.minor with
    | none => false
    | some minor =>
      if v.minor ≠ minor then minor < v.minor
      else match c.patch with
        | none => false
        | some patch =>
          if v.patch ≠ patch then patch < v.patch else Version.cmpPre v.pre c.pre == .gt

/-- The version lies below the numbers that are given, and the prerelease. -/
def hasBelow (c : Comparator) (v : Version) : Bool :=
  if v.major ≠ c.major then v.major < c.major
  else match c.minor with
    | none => false
    | some minor =>
      if v.minor ≠ minor then v.minor < minor
      else match c.patch with
        | none => false
        | some patch =>
          if v.patch ≠ patch then v.patch < patch else Version.cmpPre v.pre c.pre == .lt

/-- The version has the major and minor number that are given, and is not below the rest. -/
def agreesToPatch (c : Comparator) (v : Version) : Bool :=
  v.major == c.major && c.minor.all (v.minor == ·) &&
    match c.patch with
    | some patch =>
      if v.patch ≠ patch then patch < v.patch else Version.cmpPre v.pre c.pre != .lt
    | none => Version.cmpPre v.pre c.pre != .lt

/-- The version has the numbers that are given up to the first that is not zero, and is not below
the rest. -/
def isCompatible (c : Comparator) (v : Version) : Bool :=
  v.major == c.major && match c.minor, c.patch with
    | none, _ => true
    | some minor, none => if 0 < c.major then minor ≤ v.minor else v.minor == minor
    | some minor, some patch =>
      if 0 < c.major then
        if v.minor ≠ minor then minor < v.minor
        else if v.patch ≠ patch then patch < v.patch
        else Version.cmpPre v.pre c.pre != .lt
      else if 0 < minor then
        v.minor == minor &&
          if v.patch ≠ patch then patch < v.patch else Version.cmpPre v.pre c.pre != .lt
      else v.minor == minor && v.patch == patch && Version.cmpPre v.pre c.pre != .lt

/-- Whether the numbers and the prerelease of a version are as the operator asks. -/
def suits (c : Comparator) (v : Version) : Bool :=
  match c.op with
  | .exact => c.agrees v
  | .greater => c.hasAbove v
  | .greaterEq => c.agrees v || c.hasAbove v
  | .less => c.hasBelow v
  | .lessEq => c.agrees v || c.hasBelow v
  | .tilde => c.agreesToPatch v
  | .caret => c.isCompatible v
  | .wildcard => c.agrees v

/-- The comparator asks for prereleases of just the version's numbers. -/
def namesPrerelease (c : Comparator) (v : Version) : Bool :=
  c.major == v.major && c.minor == some v.minor && c.patch == some v.patch && !c.pre.isEmpty

/-- Whether a comparator admits a version. A prerelease has to be asked for. -/
def admits (c : Comparator) (v : Version) : Bool :=
  c.suits v && (v.pre.isEmpty || c.namesPrerelease v)

theorem admits_release {c : Comparator} {v : Version} (hv : v.IsRelease) :
    c.admits v = c.suits v := by
  simp [admits, hv.pre]

/-! ### The bounds of a range -/

/-- Numbers are given from the left on, a prerelease only after all three, and a wildcard leaves a
number open. -/
structure WellFormed (c : Comparator) : Prop where
  minor : c.patch ≠ none → c.minor ≠ none
  patch : c.pre ≠ [] → c.patch ≠ none
  wildcard : c.op = .wildcard → c.patch = none

/-- The numbers that are given are below the last one. -/
structure HasSuccessors (c : Comparator) : Prop where
  major : c.major + 1 < componentBound
  minor : ∀ n ∈ c.minor, n + 1 < componentBound
  patch : ∀ n ∈ c.patch, n + 1 < componentBound

/-- The first version with the numbers that are given. -/
def base (c : Comparator) : Version :=
  { major := c.major, minor := c.minor.getD 0, patch := c.patch.getD 0, pre := c.pre }

def afterMajor (c : Comparator) : Version := ⟨c.major + 1, 0, 0, [], []⟩

/-- The first release above all versions with the major and minor number that are given. -/
def afterMinor (c : Comparator) : Version :=
  match c.minor with
  | some minor => ⟨c.major, minor + 1, 0, [], []⟩
  | none => c.afterMajor

/-- The first release above all versions with the numbers that are given. -/
def afterGiven (c : Comparator) : Version :=
  match c.minor, c.patch with
  | some minor, some patch => ⟨c.major, minor, patch + 1, [], []⟩
  | _, _ => c.afterMinor

/-- The first release above all versions that are compatible with the numbers that are given. -/
def afterCompatible (c : Comparator) : Version :=
  match c.major, c.minor, c.patch with
  | 0, some 0, some _ => c.afterGiven
  | 0, some _, _ => c.afterMinor
  | _, _, _ => c.afterMajor

/-- The range of a comparator with numbers that have successors. -/
def bounds (c : Comparator) : VersionRange :=
  match c.op with
  | .exact =>
    if c.patch.isSome then ⟨.included c.base, .included c.base⟩
    else ⟨.included c.base, .excluded c.afterGiven⟩
  | .greater =>
    if c.patch.isSome then ⟨.excluded c.base, .unbounded⟩ else ⟨.included c.afterGiven, .unbounded⟩
  | .greaterEq => ⟨.included c.base, .unbounded⟩
  | .less => ⟨.unbounded, .excluded c.base⟩
  | .lessEq =>
    if c.patch.isSome then ⟨.unbounded, .included c.base⟩ else ⟨.unbounded, .excluded c.afterGiven⟩
  | .tilde => ⟨.included c.base, .excluded c.afterMinor⟩
  | .caret => ⟨.included c.base, .excluded c.afterCompatible⟩
  | .wildcard => ⟨.included c.base, .excluded c.afterGiven⟩

variable {c : Comparator} {v : Version}

theorem HasSuccessors.range?_eq (h : c.HasSuccessors) : c.range? = some c.bounds := by
  obtain ⟨op, major, minor, patch, pre⟩ := c
  have hmajor : next? major = some (major + 1) := if_pos h.major
  have hminor : ∀ n ∈ minor, next? n = some (n + 1) := fun n hn => if_pos (h.minor n hn)
  have hpatch : ∀ n ∈ patch, next? n = some (n + 1) := fun n hn => if_pos (h.patch n hn)
  simp only [range?, hmajor, Option.bind_eq_bind, Option.bind_some, Option.pure_def]
  cases minor with
  | none => cases op <;> cases patch <;> rfl
  | some minor =>
    simp only [hminor minor rfl, Option.bind_some]
    cases patch with
    | none => cases op <;> rfl
    | some patch =>
      simp only [hpatch patch rfl, Option.bind_some]
      cases op <;> rfl

theorem base_le_afterGiven (hc : c.WellFormed) : c.base ≤ c.afterGiven := by
  apply le_of_lt
  rw [Version.lt_iff_core, Version.core_lt_core]
  obtain ⟨op, major, _ | minor, _ | patch, pre⟩ := c
  case none.some => exact absurd rfl (hc.minor (by simp))
  all_goals simp [base, afterGiven, afterMinor, afterMajor]

section

variable (hc : c.WellFormed) (hv : v.IsRelease)

include hc hv

theorem agrees_iff_of_given (hgiven : c.patch ≠ none) :
    c.agrees v = true ↔ c.base ≤ v ∧ v ≤ c.base := by
  rw [← not_lt, ← not_lt, hv.lt_iff rfl, hv.gt_iff rfl, Version.core_lt_core, Version.core_lt_core,
    Version.core_eq_core]
  obtain ⟨op, major, _ | minor, _ | patch, pre⟩ := c
  case some.some =>
    simp only [agrees, base, hv.pre]
    grind
  case none.some => exact absurd rfl (hc.minor hgiven)
  all_goals exact absurd rfl hgiven

theorem agrees_iff_of_open (hopen : c.patch = none) :
    c.agrees v = true ↔ c.base ≤ v ∧ v < c.afterGiven := by
  rw [← not_lt, hv.lt_iff rfl]
  have hpre : c.pre = [] := by simpa [hopen] using mt hc.patch
  obtain ⟨op, major, minor, patch, pre⟩ := c
  obtain rfl : patch = none := hopen
  obtain rfl : pre = [] := hpre
  cases minor <;>
    simp only [agrees, base, afterGiven, afterMinor, afterMajor, hv.lt_iff, Version.core_lt_core,
      hv.pre] <;>
    grind

theorem hasAbove_iff_of_given (hgiven : c.patch ≠ none) : c.hasAbove v = true ↔ c.base < v := by
  rw [hv.gt_iff rfl, Version.core_lt_core, Version.core_eq_core]
  obtain ⟨op, major, _ | minor, _ | patch, pre⟩ := c
  case some.some =>
    simp only [hasAbove, base, hv.pre]
    grind [Version.cmpPre_nil_left]
  case none.some => exact absurd rfl (hc.minor hgiven)
  all_goals exact absurd rfl hgiven

omit hc in
theorem hasAbove_iff_of_open (hopen : c.patch = none) : c.hasAbove v = true ↔ c.afterGiven ≤ v := by
  rw [← not_lt]
  obtain ⟨op, major, minor, patch, pre⟩ := c
  obtain rfl : patch = none := hopen
  cases minor <;>
    simp only [hasAbove, afterGiven, afterMinor, afterMajor, hv.lt_iff, Version.core_lt_core] <;>
    grind

theorem hasBelow_iff : c.hasBelow v = true ↔ v < c.base := by
  rw [hv.lt_iff rfl, Version.core_lt_core]
  obtain ⟨op, major, _ | minor, _ | patch, pre⟩ := c
  case none.some => exact absurd rfl (hc.minor (by simp))
  all_goals
    simp only [hasBelow, base, hv.pre]
    grind [Version.cmpPre_nil_left]

theorem agreesToPatch_iff : c.agreesToPatch v = true ↔ c.base ≤ v ∧ v < c.afterMinor := by
  rw [← not_lt, hv.lt_iff rfl]
  obtain ⟨op, major, _ | minor, _ | patch, pre⟩ := c
  case none.some => exact absurd rfl (hc.minor (by simp))
  all_goals
    simp only [agreesToPatch, base, afterMinor, afterMajor, hv.lt_iff, Version.core_lt_core, hv.pre]
    grind [Version.cmpPre_nil_left]

theorem isCompatible_iff : c.isCompatible v = true ↔ c.base ≤ v ∧ v < c.afterCompatible := by
  rw [← not_lt, hv.lt_iff rfl]
  -- Which number is the first that is not zero decides where the range ends.
  obtain ⟨op, _ | major, _ | _ | minor, _ | patch, pre⟩ := c
  case zero.none.some | succ.none.some => exact absurd rfl (hc.minor (by simp))
  all_goals
    simp only [isCompatible, base, afterCompatible, afterGiven, afterMinor, afterMajor, hv.lt_iff,
      Version.core_lt_core, hv.pre]
    grind [Version.cmpPre_nil_left]

/-- A range contains the releases that suit its comparator. -/
theorem contains_bounds : c.bounds.contains v = true ↔ c.suits v = true := by
  have hbelow := hasBelow_iff hc hv
  have hpatch := agreesToPatch_iff hc hv
  have hcompatible := isCompatible_iff hc hv
  by_cases hopen : c.patch = none
  · have hagrees := agrees_iff_of_open hc hv hopen
    have habove := hasAbove_iff_of_open hv hopen
    have hle := base_le_afterGiven hc
    cases hop : c.op <;>
      simp only [bounds, suits, hop, hopen, VersionRange.contains, Bound.admitsAbove,
        Bound.admitsBelow] <;>
      grind [Version.le_iff, Version.lt_iff]
  · have hagrees := agrees_iff_of_given hc hv hopen
    have habove := hasAbove_iff_of_given hc hv hopen
    have hsome : c.patch.isSome = true := Option.isSome_iff_ne_none.mpr hopen
    cases hop : c.op
    case wildcard => exact absurd (hc.wildcard hop) hopen
    all_goals
      simp only [bounds, suits, hop, hsome, VersionRange.contains, Bound.admitsAbove,
        Bound.admitsBelow]
      grind [Version.le_iff, Version.lt_iff]

end

/-! ### Comparators that are read -/

theorem readOperator_ne_wildcard (cs : List Char) : (readOperator cs).1 ≠ some .wildcard := by
  fun_cases readOperator cs <;> simp

/-- A slot is absent where no dot stands; behind a dot it is a wildcard or a number, and no number
stands behind a wildcard. -/
theorem cases_of_readSlot {part : VersionPart} {afterWild : Bool} {cs rest : List Char} {slot : Slot}
    (h : readSlot part afterWild cs = .ok (slot, rest)) :
    (slot = .absent ∧ rest = cs ∧ ∀ more, cs ≠ '.' :: more) ∨
      (slot = .wild ∧ ∃ c, cs = '.' :: c :: rest) ∨
      (afterWild = false ∧ ∃ n more, slot = .given n ∧ cs = '.' :: more ∧
        Version.readNumber part more = .ok (n, rest)) := by
  unfold readSlot at h
  split at h
  · split at h
    · split at h
      · cases h
        exact .inr (.inl ⟨rfl, _, rfl⟩)
      · split at h
        · cases h
        · next hwild =>
          obtain ⟨⟨n, rest'⟩, hn, h⟩ := exists_of_bind_eq_ok h
          cases h
          exact .inr (.inr ⟨Bool.eq_false_of_not_eq_true hwild, n, _, rfl, rfl, hn⟩)
    · split at h
      · cases h
      · next hwild =>
        obtain ⟨⟨n, rest'⟩, hn, h⟩ := exists_of_bind_eq_ok h
        cases h
        exact .inr (.inr ⟨Bool.eq_false_of_not_eq_true hwild, n, _, rfl, rfl, hn⟩)
  · next hdot =>
    cases h
    exact .inl ⟨rfl, rfl, fun more he => hdot more he⟩

theorem readSlot_afterWild {part : VersionPart} {cs rest : List Char} {slot : Slot}
    (h : readSlot part true cs = .ok (slot, rest)) : slot.value? = none := by
  rcases cases_of_readSlot h with ⟨rfl, -, -⟩ | ⟨rfl, -⟩ | ⟨hwild, -⟩
  · rfl
  · rfl
  · cases hwild

/-- Where there is no number, there is none after it. -/
theorem readSlot_of_absent {part part' : VersionPart} {afterWild afterWild' : Bool}
    {cs cs' rest : List Char} {slot : Slot}
    (h : readSlot part afterWild cs = .ok (.absent, cs'))
    (h' : readSlot part' afterWild' cs' = .ok (slot, rest)) : slot = .absent := by
  rcases cases_of_readSlot h with ⟨-, rfl, hdot⟩ | ⟨he, -⟩ | ⟨-, n, more, he, -⟩
  · rcases cases_of_readSlot h' with ⟨rfl, -⟩ | ⟨-, c, hcs⟩ | ⟨-, n, more, -, hcs, -⟩
    · rfl
    · exact absurd hcs (hdot _)
    · exact absurd hcs (hdot _)
  · cases he
  · cases he

/-- The operator of a comparator: the one that is written, else by whether a number is left open. -/
def operatorFor (written : Option Operator) (minor patch : Slot) : Operator :=
  written.getD (if minor = .wild ∨ patch = .wild then .wildcard else .caret)

/-- What a comparator is put together from. -/
theorem read_eq_ok {cs rest : List Char} {part : VersionPart} (h : read cs = .ok (c, part, rest)) :
    ∃ cs₀ cs₁ cs₂ cs₃ major minor patch pre,
      Version.readNumber .major cs₀ = .ok (major, cs₁) ∧
      readSlot .minor false cs₁ = .ok (minor, cs₂) ∧
      readSlot .patch (minor == .wild) cs₂ = .ok (patch, cs₃) ∧
      (pre ≠ [] → patch.value? ≠ none ∧ ∃ cs₄ cs₅, Version.readPre cs₄ = .ok (pre, cs₅)) ∧
      c = ⟨operatorFor (readOperator cs).1 minor patch, major, minor.value?, patch.value?, pre⟩ := by
  unfold read at h
  generalize readOperator cs = start at h ⊢
  obtain ⟨written, cs₀⟩ := start
  obtain ⟨⟨major, cs₁⟩, hmajor, h⟩ := exists_of_bind_eq_ok h
  obtain ⟨⟨minor, cs₂⟩, hminor, h⟩ := exists_of_bind_eq_ok h
  obtain ⟨⟨patch, cs₃⟩, hpatch, h⟩ := exists_of_bind_eq_ok h
  dsimp -zeta only at h
  extract_lets op full finish at h
  have hop : op = operatorFor written minor patch := by
    cases written <;> simp [op, operatorFor]
  have hfull : full = true → patch.value? ≠ none := Option.isSome_iff_ne_none.mp
  clear_value op full
  have hfinish (pre : List PreLabel) (cs₄ : List Char) (h : finish (pre, cs₄) = .ok (c, part, rest)) :
      c = ⟨operatorFor written minor patch, major, minor.value?, patch.value?, pre⟩ := by
    rw [← hop]
    simp only [finish] at h
    split at h
    · obtain ⟨build, _, h⟩ := exists_of_bind_eq_ok h
      cases h
      rfl
    · cases h
      rfl
  refine ⟨dropSpaces cs₀, cs₁, cs₂, cs₃, major, minor, patch, ?_⟩
  split at h
  · obtain ⟨⟨pre, cs₄⟩, hpre, h⟩ := exists_of_bind_eq_ok h
    exact ⟨pre, hmajor, hminor, hpatch, fun _ => ⟨hfull rfl, _, _, hpre⟩, hfinish pre cs₄ h⟩
  · exact ⟨[], hmajor, hminor, hpatch, absurd rfl, hfinish [] cs₃ h⟩

theorem wellFormed_of_read {cs rest : List Char} {part : VersionPart}
    (h : read cs = .ok (c, part, rest)) : c.WellFormed := by
  obtain ⟨_, _, _, _, major, minor, patch, pre, _, hminor, hpatch, hpre, rfl⟩ := read_eq_ok h
  have hopen : minor.value? = none → patch.value? = none := by
    intro hm
    cases minor with
    | given n => cases hm
    | wild => exact readSlot_afterWild hpatch
    | absent =>
      rw [readSlot_of_absent hminor hpatch]
      rfl
  refine ⟨mt hopen, fun hne => (hpre hne).1, fun hop => ?_⟩
  have hwritten := readOperator_ne_wildcard cs
  by_contra hgiven
  -- A wildcard that is not written stands for a slot that is not given.
  have hminorWild : minor ≠ .wild := by
    rintro rfl
    exact hgiven (hopen rfl)
  have hpatchWild : patch ≠ .wild := by
    rintro rfl
    exact hgiven rfl
  cases hstart : (readOperator cs).1 with
  | some op =>
    obtain rfl : op = .wildcard := by simpa [operatorFor, hstart] using hop
    exact hwritten hstart
  | none => simp [operatorFor, hstart, hminorWild, hpatchWild] at hop

theorem mem_of_readList {room : Nat} {cs : List Char} {cs' : List Comparator}
    (h : readList room cs = .ok cs') (hc : c ∈ cs') :
    ∃ cs₁ part rest, read cs₁ = .ok (c, part, rest) := by
  induction room generalizing cs cs' with
  | zero => cases h
  | succ room ih =>
    unfold readList at h
    split at h
    · split at h
      · dsimp only at h
        split at h <;> cases h
      · cases h
    · next comparator part rest hread =>
      split at h
      · cases h
        obtain rfl := List.mem_singleton.mp hc
        exact ⟨_, _, _, hread⟩
      · obtain ⟨others, hothers, h⟩ := exists_of_bind_eq_ok h
        cases h
        rcases List.mem_cons.mp hc with rfl | hc
        · exact ⟨_, _, _, hread⟩
        · exact ih hothers hc
      · cases h
end Comparator

/-- The comparators of a requirement are read one by one. -/
theorem Requirement.exists_read {cs : List Char} {req : Requirement} (h : read cs = .ok req)
    {c : Comparator} (hc : c ∈ req) : ∃ cs₁ part rest, Comparator.read cs₁ = .ok (c, part, rest) := by
  unfold read at h
  dsimp only at h
  split at h
  · split at h
    · split at h
      · cases h
        cases hc
      · cases h
      · cases h
    · exact Comparator.mem_of_readList h hc
  · exact Comparator.mem_of_readList h hc

namespace VersionRange

theorem ofRequirement?_eq_some {req : Requirement} (h : ∀ c ∈ req, c.HasSuccessors) :
    ofRequirement? req = some (req.foldl (fun r c => r.intersect c.bounds) any) := by
  rw [ofRequirement?_eq]
  generalize any = range
  induction req generalizing range with
  | nil => rfl
  | cons c rest ih =>
    have hc : range.narrow? c = some (range.intersect c.bounds) := by
      rw [narrow?, (h c (by simp)).range?_eq, Option.map_some]
    rw [List.foldlM_cons, hc, List.foldl_cons]
    exact ih (fun d hd => h d (by simp [hd])) _

theorem contains_foldl (req : Requirement) (range : VersionRange) (v : Version) :
    (req.foldl (fun r c => r.intersect c.bounds) range).contains v = true ↔
      range.contains v = true ∧ ∀ c ∈ req, c.bounds.contains v = true := by
  induction req generalizing range with
  | nil => simp
  | cons c rest ih =>
    rw [List.foldl_cons, ih, contains_intersect]
    simp [and_assoc]

/-- The range that is read from a requirement contains the releases that all comparators admit, and
a requirement is refused as empty only if they admit none. -/
theorem contains_iff_admitted {s : String} {req : Requirement}
    (h : Requirement.read (Text.trim s.toList) = .ok req) (hsucc : ∀ c ∈ req, c.HasSuccessors) :
    (∀ r, read s = .ok r →
      ∀ v, v.IsRelease → (r.contains v = true ↔ ∀ c ∈ req, c.admits v = true)) ∧
    ∀ e, read s = .error e → e = .emptyRequirement (Text.trimmed s) ∧
      ∀ v, v.IsRelease → ¬ ∀ c ∈ req, c.admits v = true := by
  have hcontains (v : Version) (hv : v.IsRelease) :
      (req.foldl (fun r c => r.intersect c.bounds) any).contains v = true ↔
        ∀ c ∈ req, c.admits v = true := by
    rw [contains_foldl]
    constructor
    · rintro ⟨-, hall⟩ c hc
      obtain ⟨_, _, _, hread⟩ := Requirement.exists_read h hc
      rw [Comparator.admits_release hv]
      exact (Comparator.contains_bounds (Comparator.wellFormed_of_read hread) hv).mp (hall c hc)
    · intro hall
      refine ⟨rfl, fun c hc => ?_⟩
      obtain ⟨_, _, _, hread⟩ := Requirement.exists_read h hc
      have hadmits := hall c hc
      rw [Comparator.admits_release hv] at hadmits
      exact (Comparator.contains_bounds (Comparator.wellFormed_of_read hread) hv).mpr hadmits
  rw [read_of_requirement h, ofRequirement?_eq_some hsucc]
  dsimp only
  split
  · next hempty =>
    refine ⟨by simp, fun e he => ?_⟩
    cases he
    exact ⟨rfl, fun v hv hall => not_contains_of_isEmpty hempty v ((hcontains v hv).mpr hall)⟩
  · refine ⟨fun r hr => ?_, by simp⟩
    cases hr
    exact hcontains

/-- What is compatible with a prerelease, up to all of a minor version. -/
def fromCandidate : Requirement :=
  [⟨.caret, 0, some 3, some 1, [.word "rc", .number 1]⟩, ⟨.lessEq, 0, some 4, none, []⟩]

theorem contains_iff_admitted_fromCandidate :
    Requirement.read (Text.trim " ^0.3.1-rc.1, <=0.4 ".toList) = .ok fromCandidate ∧
      (∀ c ∈ fromCandidate, c.HasSuccessors) ∧
      read " ^0.3.1-rc.1, <=0.4 " = .ok ⟨.included ⟨0, 3, 1, [.word "rc", .number 1], []⟩,
        .excluded ⟨0, 4, 0, [], []⟩⟩ ∧
      ∀ v : Version, v.IsRelease →
        ((⟨.included ⟨0, 3, 1, [.word "rc", .number 1], []⟩, .excluded ⟨0, 4, 0, [], []⟩⟩ :
          VersionRange).contains v = true ↔ ∀ c ∈ fromCandidate, c.admits v = true) := by
  have hreq : Requirement.read (Text.trim " ^0.3.1-rc.1, <=0.4 ".toList) = .ok fromCandidate := rfl
  have hsucc : ∀ c ∈ fromCandidate, c.HasSuccessors := by
    simp only [fromCandidate, List.forall_mem_cons, List.not_mem_nil, false_implies, implies_true,
      and_true]
    constructor <;> constructor <;> simp [componentBound]
  have hread : read " ^0.3.1-rc.1, <=0.4 " = .ok ⟨.included ⟨0, 3, 1, [.word "rc", .number 1], []⟩,
      .excluded ⟨0, 4, 0, [], []⟩⟩ := rfl
  exact ⟨hreq, hsucc, hread, (contains_iff_admitted hreq hsucc).1 _ hread⟩

end VersionRange
end Instrumentation
