import Instrumentation.Proofs.VersionOrder
import Mathlib.Data.Prod.Lex
import Mathlib.Order.MinMax
import Mathlib.Order.WithBot

/-!
Version ranges as pieces of a line. A bound cuts the line of versions right below or right above a
version, and a range holds the versions between its two cuts. Tightening takes the higher of two
lower cuts and the lower of two upper ones, so ranges meet as intervals do, in any order.
-/
namespace Instrumentation

open Std (TransCmp LawfulEqCmp OrientedCmp ReflCmp)

namespace Version

theorem le_eq_isLE (a b : Version) : a.le b = (a.cmp b).isLE := by
  unfold le
  cases a.cmp b <;> rfl

theorem cmp_swap (a b : Version) : b.cmp a = (a.cmp b).swap := OrientedCmp.eq_swap

/-- Versions are ordered as they are compared. -/
instance : LinearOrder Version where
  le a b := a.le b = true
  lt a b := a.lt b = true
  le_refl a := by
    rw [le_eq_isLE]
    exact ReflCmp.isLE_rfl
  le_trans a b c hab hbc := by
    rw [le_eq_isLE] at *
    exact TransCmp.isLE_trans hab hbc
  le_antisymm a b hab hba := by
    rw [le_eq_isLE] at *
    exact LawfulEqCmp.eq_of_compare (OrientedCmp.isLE_antisymm hab hba)
  le_total a b := by
    rw [le_eq_isLE, le_eq_isLE, cmp_swap a b, Ordering.isLE_swap]
    cases a.cmp b <;> simp
  lt_iff_le_not_ge a b := by
    rw [le_eq_isLE, le_eq_isLE, cmp_swap a b, Ordering.isLE_swap, lt]
    cases a.cmp b <;> simp
  toDecidableLE a b := inferInstanceAs (Decidable (a.le b = true))
  toDecidableLT a b := inferInstanceAs (Decidable (a.lt b = true))
  toDecidableEq := inferInstance
  max := max
  min := min
  max_def _ _ := rfl
  min_def _ _ := rfl
  compare := cmp
  compare_eq_compareOfLessAndEq a b := by
    simp only [compareOfLessAndEq]
    change a.cmp b = if a.lt b = true then .lt else if a = b then .eq else .gt
    unfold lt
    cases h : a.cmp b with
    | lt => rfl
    | eq => simp [LawfulEqCmp.eq_of_compare h]
    | gt =>
      have hne : a ≠ b := by
        rintro rfl
        have hself : a.cmp a = .eq := ReflCmp.compare_self
        rw [hself] at h
        cases h
      simp [hne]

@[simp] theorem le_iff {a b : Version} : a.le b = true ↔ a ≤ b := Iff.rfl

@[simp] theorem lt_iff {a b : Version} : a.lt b = true ↔ a < b := Iff.rfl

/-- The three numbers of a version, compared one after the other. -/
def core (v : Version) : ℕ ×ₗ ℕ ×ₗ ℕ := toLex (v.major, toLex (v.minor, v.patch))

theorem core_lt_core {a b : Version} : a.core < b.core ↔ a.major < b.major ∨
    a.major = b.major ∧ (a.minor < b.minor ∨ a.minor = b.minor ∧ a.patch < b.patch) := by
  simp only [core, Prod.Lex.toLex_lt_toLex]

theorem core_eq_core {a b : Version} :
    a.core = b.core ↔ a.major = b.major ∧ a.minor = b.minor ∧ a.patch = b.patch := by
  simp only [core, toLex_inj, Prod.mk.injEq]

/-- Versions are compared by their numbers, then by their prereleases, and at last by their
builds. -/
theorem lt_iff_core {a b : Version} : a < b ↔ a.core < b.core ∨ a.core = b.core ∧
    (cmpPre a.pre b.pre = .lt ∨ a.pre = b.pre ∧ cmpBuild a.build b.build = .lt) := by
  rw [← lt_iff, core_lt_core, core_eq_core, lt, beq_iff_eq, cmp]
  simp only [Ordering.then_eq_lt, Nat.compare_eq_lt, LawfulEqCmp.compare_eq_iff_eq]
  tauto

/-- No prerelease labels are above all others. -/
theorem cmpPre_nil_left (labels : List PreLabel) :
    cmpPre [] labels = if labels = [] then .eq else .gt := by
  cases labels <;> rfl

theorem cmpPre_nil_right (labels : List PreLabel) :
    cmpPre labels [] = if labels = [] then .eq else .lt := by
  cases labels <;> rfl

/-- No build labels are below all others. -/
theorem cmpBuild_nil_left (labels : List BuildLabel) :
    cmpBuild [] labels = if labels = [] then .eq else .lt := by
  cases labels <;> rfl

theorem cmpBuild_nil_right (labels : List BuildLabel) :
    cmpBuild labels [] = if labels = [] then .eq else .gt := by
  cases labels <;> rfl

end Version

/-- A cut of the line of versions: before all of them, after all of them, or right below (`false`)
or right above (`true`) one of them. -/
abbrev Cut := WithBot (WithTop (Version ×ₗ Bool))

namespace Cut

variable {v w : Version}

def below (v : Version) : Cut := ((toLex (v, false) : Version ×ₗ Bool) : WithTop (Version ×ₗ Bool))

def above (v : Version) : Cut := ((toLex (v, true) : Version ×ₗ Bool) : WithTop (Version ×ₗ Bool))

@[simp] theorem below_ne_bot : below v ≠ ⊥ := WithBot.coe_ne_bot

@[simp] theorem above_ne_bot : above v ≠ ⊥ := WithBot.coe_ne_bot

@[simp] theorem below_ne_top : below v ≠ ⊤ := by
  intro h
  exact WithTop.coe_ne_top (WithBot.coe_injective h)

@[simp] theorem above_ne_top : above v ≠ ⊤ := by
  intro h
  exact WithTop.coe_ne_top (WithBot.coe_injective h)

@[simp] theorem below_le_below : below v ≤ below w ↔ v ≤ w := by
  rw [below, below, WithBot.coe_le_coe, WithTop.coe_le_coe, Prod.Lex.toLex_le_toLex]
  simp [le_iff_lt_or_eq]

@[simp] theorem above_le_above : above v ≤ above w ↔ v ≤ w := by
  rw [above, above, WithBot.coe_le_coe, WithTop.coe_le_coe, Prod.Lex.toLex_le_toLex]
  simp [le_iff_lt_or_eq]

@[simp] theorem below_le_above : below v ≤ above w ↔ v ≤ w := by
  rw [below, above, WithBot.coe_le_coe, WithTop.coe_le_coe, Prod.Lex.toLex_le_toLex]
  simp [le_iff_lt_or_eq]

@[simp] theorem above_le_below : above v ≤ below w ↔ v < w := by
  rw [below, above, WithBot.coe_le_coe, WithTop.coe_le_coe, Prod.Lex.toLex_le_toLex]
  simp

theorem below_lt_above (v : Version) : below v < above v := by
  rw [← not_le, above_le_below]
  exact lt_irrefl v

theorem below_mono : Monotone below := fun _ _ => below_le_below.mpr

theorem above_mono : Monotone above := fun _ _ => above_le_above.mpr

end Cut

namespace Bound

/-- Where a lower bound cuts. -/
def lowerCut : Bound → Cut
  | unbounded => ⊥
  | included v => Cut.below v
  | excluded v => Cut.above v

/-- Where an upper bound cuts. -/
def upperCut : Bound → Cut
  | unbounded => ⊤
  | included v => Cut.above v
  | excluded v => Cut.below v

theorem admitsAbove_iff {b : Bound} {v : Version} :
    b.admitsAbove v = true ↔ b.lowerCut ≤ Cut.below v := by
  cases b <;> simp [admitsAbove, lowerCut]

theorem admitsBelow_iff {b : Bound} {v : Version} :
    b.admitsBelow v = true ↔ Cut.above v ≤ b.upperCut := by
  cases b <;> simp [admitsBelow, upperCut]

theorem lowerCut_injective : Function.Injective lowerCut := by
  intro a b h
  cases a <;> cases b <;> simp_all [lowerCut, Cut.below, Cut.above]

theorem upperCut_injective : Function.Injective upperCut := by
  intro a b h
  cases a <;> cases b <;> simp_all [upperCut, Cut.below, Cut.above]

/-- The tighter of two lower bounds cuts where the higher one does. -/
theorem lowerCut_tighterLower (a b : Bound) :
    (a.tighterLower b).lowerCut = max a.lowerCut b.lowerCut := by
  cases a <;> cases b
  case included.included x y => exact Cut.below_mono.map_max
  case excluded.excluded x y => exact Cut.above_mono.map_max
  case included.excluded x y =>
    by_cases h : y < x
    · simp [tighterLower, h, lowerCut]
    · simp [tighterLower, h, lowerCut, not_lt.mp h]
  case excluded.included x y =>
    by_cases h : x < y
    · simp [tighterLower, h, lowerCut]
    · simp [tighterLower, h, lowerCut, not_lt.mp h]
  all_goals simp [tighterLower, lowerCut]

/-- The tighter of two upper bounds cuts where the lower one does. -/
theorem upperCut_tighterUpper (a b : Bound) :
    (a.tighterUpper b).upperCut = min a.upperCut b.upperCut := by
  cases a <;> cases b
  case included.included x y => exact Cut.above_mono.map_min
  case excluded.excluded x y => exact Cut.below_mono.map_min
  case included.excluded x y =>
    by_cases h : x < y
    · simp [tighterUpper, h, upperCut]
    · simp [tighterUpper, h, upperCut, not_lt.mp h]
  case excluded.included x y =>
    by_cases h : y < x
    · simp [tighterUpper, h, upperCut]
    · simp [tighterUpper, h, upperCut, not_lt.mp h]
  all_goals simp [tighterUpper, upperCut]

end Bound

namespace VersionRange

variable {r : VersionRange} {v : Version}

/-- A range holds the versions between its cuts. -/
theorem contains_iff :
    r.contains v = true ↔ r.lower.lowerCut ≤ Cut.below v ∧ Cut.above v ≤ r.upper.upperCut := by
  rw [contains, Bool.and_eq_true, Bound.admitsAbove_iff, Bound.admitsBelow_iff]

/-- The bounds of a range cross if its cuts do, or if they are one cut. -/
theorem isEmpty_iff : r.isEmpty = true ↔ r.upper.upperCut ≤ r.lower.lowerCut := by
  rcases r with ⟨_ | _ | _, _ | _ | _⟩ <;> simp [isEmpty, Bound.lowerCut, Bound.upperCut]

theorem ext_cuts {a b : VersionRange} (hlower : a.lower.lowerCut = b.lower.lowerCut)
    (hupper : a.upper.upperCut = b.upper.upperCut) : a = b := by
  cases a
  cases b
  rw [mk.injEq]
  exact ⟨Bound.lowerCut_injective hlower, Bound.upperCut_injective hupper⟩

@[simp] theorem lowerCut_intersect (a b : VersionRange) :
    (a.intersect b).lower.lowerCut = max a.lower.lowerCut b.lower.lowerCut :=
  Bound.lowerCut_tighterLower a.lower b.lower

@[simp] theorem upperCut_intersect (a b : VersionRange) :
    (a.intersect b).upper.upperCut = min a.upper.upperCut b.upper.upperCut :=
  Bound.upperCut_tighterUpper a.upper b.upper

theorem contains_intersect (a b : VersionRange) (v : Version) :
    (a.intersect b).contains v = true ↔ a.contains v = true ∧ b.contains v = true := by
  simp only [contains_iff, lowerCut_intersect, upperCut_intersect, max_le_iff, le_min_iff]
  exact and_and_and_comm

theorem intersect_assoc (a b c : VersionRange) :
    (a.intersect b).intersect c = a.intersect (b.intersect c) := by
  apply ext_cuts
  · simp only [lowerCut_intersect, max_assoc]
  · simp only [upperCut_intersect, min_assoc]

theorem intersect_self (a : VersionRange) : a.intersect a = a := by
  apply ext_cuts
  · rw [lowerCut_intersect, max_self]
  · rw [upperCut_intersect, min_self]

theorem any_intersect (a : VersionRange) : any.intersect a = a := by
  apply ext_cuts
  · rw [lowerCut_intersect]
    exact max_eq_right bot_le
  · rw [upperCut_intersect]
    exact min_eq_right le_top

/-- No version lies between bounds that cross. -/
theorem not_contains_of_isEmpty (h : r.isEmpty = true) (v : Version) : ¬ r.contains v = true := by
  intro hv
  obtain ⟨hlower, hupper⟩ := contains_iff.mp hv
  have hcross : Cut.above v ≤ Cut.below v := hupper.trans ((isEmpty_iff.mp h).trans hlower)
  exact absurd (Cut.below_lt_above v) (not_lt.mpr hcross)

theorem intersect_right_comm (a b c : VersionRange) :
    (a.intersect b).intersect c = (a.intersect c).intersect b := by
  rw [intersect_assoc, intersect_comm b c, intersect_assoc]

/-- One more comparator narrows a range. -/
def narrow? (range : VersionRange) (c : Comparator) : Option VersionRange :=
  c.range?.map range.intersect

theorem ofRequirement?_eq (req : Requirement) : ofRequirement? req = req.foldlM narrow? any := by
  unfold ofRequirement?
  congr 1
  funext range c
  unfold narrow?
  cases c.range? <;> rfl

/-- Two comparators narrow a range in either order. -/
theorem narrow?_comm (range : VersionRange) (c d : Comparator) :
    (range.narrow? c).bind (narrow? · d) = (range.narrow? d).bind (narrow? · c) := by
  unfold narrow?
  cases c.range? <;> cases d.range? <;> simp [intersect_right_comm]

theorem foldlM_narrow?_perm {req req' : Requirement} (h : req.Perm req') (range : VersionRange) :
    req.foldlM narrow? range = req'.foldlM narrow? range := by
  induction h generalizing range with
  | nil => rfl
  | cons c _ ih =>
    rw [List.foldlM_cons, List.foldlM_cons]
    exact bind_congr ih
  | swap c d rest =>
    simp only [List.foldlM_cons]
    have hswap := congrArg (Option.bind · (rest.foldlM narrow?)) (narrow?_comm range d c)
    simpa [Option.bind_assoc] using hswap
  | trans _ _ ih ih' => exact (ih range).trans (ih' range)

/-- The order of comparators does not matter. -/
theorem ofRequirement?_perm {req req' : Requirement} (h : req.Perm req') :
    ofRequirement? req = ofRequirement? req' := by
  rw [ofRequirement?_eq, ofRequirement?_eq, foldlM_narrow?_perm h]

/-- A text that starts like an interval is no requirement. -/
theorem read_requirement_of_bracket {c : Char} (hc : c = '[' ∨ c = '(') (cs : List Char) :
    Requirement.read (c :: cs) = .error (.unexpectedChar .major c) := by
  rcases hc with rfl | rfl <;> rfl

/-- A text that is a requirement is read by its comparators alone. -/
theorem read_of_requirement {s : String} {req : Requirement}
    (h : Requirement.read (Text.trim s.toList) = .ok req) :
    read s = match ofRequirement? req with
      | none => .error .overflow
      | some range =>
        if range.isEmpty then .error (.emptyRequirement (Text.trimmed s)) else .ok range := by
  simp only [read]
  split
  · next hnil =>
    rw [hnil] at h
    cases h
  · next hstar =>
    rw [hstar] at h
    cases h
    rfl
  · next c cs _ hcons =>
    have hc : ¬ (c = '[' ∨ c = '(') := by
      intro hc
      rw [hcons, read_requirement_of_bracket hc] at h
      cases h
    rw [if_neg (by simpa using hc), h]
    rfl

/-- A text that is a requirement stands for what its comparators leave, if they leave anything. -/
theorem read_eq_ok_iff {s : String} {req : Requirement}
    (h : Requirement.read (Text.trim s.toList) = .ok req) :
    read s = .ok r ↔ ofRequirement? req = some r ∧ r.isEmpty = false := by
  rw [read_of_requirement h]
  cases hreq : ofRequirement? req with
  | none => simp
  | some range =>
    cases hempty : range.isEmpty with
    | true =>
      simp [hempty]
      rintro rfl
      exact hempty
    | false =>
      simp [hempty]
      rintro rfl
      exact hempty

/-- Intersection is the meet of ranges: it holds what both hold, in any order and however often
they are met, and requirements that differ in the order of their comparators stand for one
range. -/
theorem intersect_is_meet :
    (∀ (a b : VersionRange) (v : Version),
      (a.intersect b).contains v = true ↔ a.contains v = true ∧ b.contains v = true)
    ∧ (∀ a b : VersionRange, a.intersect b = b.intersect a)
    ∧ (∀ a b c : VersionRange, (a.intersect b).intersect c = a.intersect (b.intersect c))
    ∧ (∀ a : VersionRange, a.intersect a = a)
    ∧ (∀ a : VersionRange, any.intersect a = a ∧ a.intersect any = a)
    ∧ (∀ a b : VersionRange, a.isDisjoint b = b.isDisjoint a)
    ∧ (∀ a b : VersionRange, a.isDisjoint b = true →
      ∀ v, ¬ (a.contains v = true ∧ b.contains v = true))
    ∧ (∀ req req' : Requirement, req.Perm req' → ofRequirement? req = ofRequirement? req')
    ∧ ∀ (s s' : String) (req req' : Requirement),
      Requirement.read (Text.trim s.toList) = .ok req →
      Requirement.read (Text.trim s'.toList) = .ok req' → req.Perm req' →
      ∀ range, read s = .ok range ↔ read s' = .ok range := by
  refine ⟨contains_intersect, intersect_comm, intersect_assoc, intersect_self, ?_,
    isDisjoint_comm, ?_, fun _ _ => ofRequirement?_perm, ?_⟩
  · intro a
    exact ⟨any_intersect a, by rw [intersect_comm, any_intersect]⟩
  · intro a b h v hv
    exact not_contains_of_isEmpty h v ((contains_intersect a b v).mpr hv)
  · intro s s' req req' hs hs' hperm range
    rw [read_eq_ok_iff hs, read_eq_ok_iff hs', ofRequirement?_perm hperm]

/-- The first major release that is not an early one. -/
def firstMajor : Version := { major := 1, minor := 0, patch := 0 }

def fromOneTwo : Comparator := ⟨.greaterEq, 1, some 2, none, []⟩

def beforeTwo : Comparator := ⟨.less, 2, none, none, []⟩

/-- What is before a release and what is from it on have nothing in common, and a text may name its
two ends in either order. -/
theorem intersect_at_firstMajor :
    (¬ ((⟨.unbounded, .excluded firstMajor⟩ : VersionRange).contains firstMajor = true
      ∧ (⟨.included firstMajor, .unbounded⟩ : VersionRange).contains firstMajor = true))
    ∧ ofRequirement? [fromOneTwo, beforeTwo] = ofRequirement? [beforeTwo, fromOneTwo]
    ∧ read ">=1.2, <2" = .ok ⟨.included ⟨1, 2, 0, [], []⟩, .excluded ⟨2, 0, 0, [], []⟩⟩
    ∧ read "<2, >=1.2" = .ok ⟨.included ⟨1, 2, 0, [], []⟩, .excluded ⟨2, 0, 0, [], []⟩⟩ := by
  obtain ⟨_, _, _, _, _, _, hdisjoint, hperm, htext⟩ := intersect_is_meet
  have hread : read ">=1.2, <2" =
      .ok ⟨.included ⟨1, 2, 0, [], []⟩, .excluded ⟨2, 0, 0, [], []⟩⟩ := rfl
  refine ⟨hdisjoint _ _ (by decide) firstMajor, hperm _ _ (.swap _ _ _), hread, ?_⟩
  exact (htext ">=1.2, <2" "<2, >=1.2" [fromOneTwo, beforeTwo] [beforeTwo, fromOneTwo] rfl rfl
    (.swap _ _ _) _).mp hread

end VersionRange
end Instrumentation
