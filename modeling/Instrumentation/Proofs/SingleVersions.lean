import Instrumentation.Proofs.Selection
import Instrumentation.Proofs.VersionRanges

/-!
Programs with one version of each package. There, the ranges that applying rules put on a package
share its version, so no two rules contradict each other: selection can fail only by a rule that
requires a version which is not there (`fails_by_one_rule`).
-/
namespace Instrumentation

theorem underscored_underscored (s : String) : underscored (underscored s) = underscored s := by
  simp only [underscored, String.toList_ofList, List.map_map]
  congr 1
  apply List.map_congr_left
  intro c _
  by_cases h : c = '-'
  · simp [h]
  · simp [h]

namespace VersionRange

/-- Ranges that share a version are not disjoint. -/
theorem not_isDisjoint {a b : VersionRange} {v : Version} (ha : a.contains v = true)
    (hb : b.contains v = true) : ¬ a.isDisjoint b = true := by
  intro hdisjoint
  exact not_contains_of_isEmpty hdisjoint v ((contains_intersect a b v).mpr ⟨ha, hb⟩)

end VersionRange

namespace PackageGraph

/-- The library of each package has its name, with underscores. -/
def NamesLibraries (g : PackageGraph) : Prop := ∀ p ∈ g.packages, p.crateName = underscored p.name

instance (g : PackageGraph) : Decidable g.NamesLibraries :=
  inferInstanceAs (Decidable (∀ p ∈ g.packages, p.crateName = underscored p.name))

/-- Needed packages of one name have one version. -/
def IsSingleVersioned (g : PackageGraph) : Prop :=
  ∀ i j p q, g.packages[i]? = some p → g.packages[j]? = some q → g.Needs i → g.Needs j →
    samePackageName p.name q.name = true → p.version = q.version

theorem IsSingleVersioned.eq {g : PackageGraph} (h : g.IsSingleVersioned) {m n : String}
    {v w : Version} (hm : g.Resolves (fun p => samePackageName p.name m) v)
    (hn : g.Resolves (fun p => samePackageName p.name n) w) (hsame : samePackageName m n = true) :
    v = w := by
  obtain ⟨i, p, hp, hneeds, hname, rfl⟩ := hm
  obtain ⟨j, q, hq, hneeds', hname', rfl⟩ := hn
  apply h i j p q hp hq hneeds hneeds'
  simp only [samePackageName, beq_iff_eq] at hname hname' hsame ⊢
  rw [hname, hsame, hname']

end PackageGraph

namespace Selection

variable {g : PackageGraph} {r : Rule}

/-- Of each package that an applying rule puts a range on, a version in that range is there. -/
theorem exists_resolved_of_puts (hlibraries : g.NamesLibraries) (happlies : Applies g r) {m : String}
    {x : VersionRange} {s : Bool} (hputs : Puts r m x s) :
    ∃ v, g.Resolves (fun p => samePackageName p.name m) v ∧ x.contains v = true := by
  cases hputs with
  | target =>
    obtain ⟨v, ⟨i, p, hp, hneeds, hcrate, hv⟩, hcontains⟩ := happlies.1.1
    have hname : samePackageName p.name r.targetCrate = true := by
      have htarget : underscored p.name = r.targetCrate := by
        rw [← hlibraries p (List.mem_of_getElem? hp)]
        exact beq_iff_eq.mp hcrate
      rw [samePackageName, ← htarget, underscored_underscored, beq_self_eq_true]
    exact ⟨v, ⟨i, p, hp, hneeds, hname, hv⟩, hcontains⟩
  | required hq => exact happlies.2 _ hq

/-- The ranges of two applying rules share the version that is there. -/
theorem not_clash (hlibraries : g.NamesLibraries) (hsingle : g.IsSingleVersioned) {a b : Rule}
    (ha : Applies g a) (hb : Applies g b) : ¬ Clash a b := by
  rintro ⟨m, n, x, y, s, t, hx, hy, hsame, -, hdisjoint⟩
  obtain ⟨v, hv, hxv⟩ := exists_resolved_of_puts hlibraries ha hx
  obtain ⟨w, hw, hyw⟩ := exists_resolved_of_puts hlibraries hb hy
  have heq : v = w := hsingle.eq hv hw hsame
  rw [← heq] at hyw
  exact VersionRange.not_isDisjoint hxv hyw hdisjoint

/-- What is said of a required package that is there in other versions only. -/
theorem requirementsMet_eq_error {qs : List RequiredPackage} {e : Failure}
    (h : requirementsMet g g.reachable r qs = .error e) :
    ∃ q ∈ qs, Present g q ∧ ¬ Met g q ∧ ∃ message, e = .versionConflict q.package [r.id] message := by
  induction qs with
  | nil => cases h
  | cons q rest ih =>
    simp only [requirementsMet] at h
    split at h
    · cases h
    · next hempty =>
      have hpresent : Present g q := present_iff.mpr (Bool.eq_false_iff.mpr hempty)
      split at h
      · obtain ⟨q', hq', hfails⟩ := ih h
        exact ⟨q', List.mem_cons_of_mem q hq', hfails⟩
      · next hany =>
        cases h
        exact ⟨q, List.mem_cons_self, hpresent, mt met_iff.mp hany, _, rfl⟩

theorem applies_eq_error {e : Failure} (h : applies g g.reachable r = .error e) :
    Aimed g r ∧ requirementsMet g g.reachable r r.requires = .error e := by
  rw [applies] at h
  split at h
  · next haimed => exact ⟨aimed_iff.mpr haimed, h⟩
  · cases h

/-- In a program with one version of each package, selection fails only by one rule, which requires
another version of a package than the one that is there; no two rules contradict each other. -/
theorem fails_by_one_rule (hlibraries : g.NamesLibraries) (hsingle : g.IsSingleVersioned)
    (registry : Registry) {e : Failure} (h : select g registry = .error e) :
    ∃ r ∈ registry.rules, Aimed g r ∧ ∃ q ∈ r.requires, Present g q ∧ ¬ Met g q ∧
      ∃ message, e = .versionConflict q.package [r.id] message := by
  rcases eq_error_or_of_bind h with hfilter | ⟨selected, hselected, hclash⟩
  · obtain ⟨r, hr, hfails⟩ := exists_of_filterM_eq_error hfilter
    obtain ⟨haimed, hrequires⟩ := applies_eq_error hfails
    exact ⟨r, hr, haimed, requirementsMet_eq_error hrequires⟩
  · obtain ⟨-, rfl⟩ := filterM_eq_ok_iff.mp hselected
    have hnone : clash? (registry.rules.filter (saysYes (applies g g.reachable))) = none := by
      apply clash?_eq_none_iff_of_ids.mpr
      intro a ha b hb _
      have happlies := saysYes_applies.mp (List.mem_filter.mp ha).2
      have happlies' := saysYes_applies.mp (List.mem_filter.mp hb).2
      exact not_clash hlibraries hsingle happlies happlies'
    rw [hnone] at hclash
    cases hclash

/-- A rule for the crate `p` that requires some major version of a package. -/
def demandingRule (id package : String) (order major : Nat) : Rule where
  id := id
  order := order
  source := "rules"
  importPath := "p"
  receiver := .none
  function := "f"
  params := .any
  results := .any
  onEnter := some ⟨"h", "g"⟩
  onExit := none
  version := .any
  rustc := none
  requires := [⟨package, .included { major, minor := 0, patch := 0 },
    .excluded { major := major + 1, minor := 0, patch := 0 }⟩]
  fusible := false
  captures := []
  hookCrate := ⟨"h", ⟨"/h"⟩⟩

/-- Rules that ask for two versions of one package, each in its own spelling. -/
def demandingRules : Registry where
  rules := [demandingRule "a" "d-e" 0 1, demandingRule "b" "d_e" 1 2]
  hookCrates := [⟨"h", ⟨"/h"⟩⟩]

/-- A program with a package that has a dash in its name. -/
def dashedGraph : PackageGraph where
  workspaceRoot := ⟨"/p"⟩
  packages := [crateP, { crateP with id := "d", name := "d-e", crateName := "d_e", isMember := false }]
  deps := [[1], []]
  rustc := none

/-- Of two rules that ask for different versions of one package, the one fails whose version is not
there. -/
theorem fails_by_one_rule_dashed : ∃ e, select dashedGraph demandingRules = .error e ∧
    dashedGraph.NamesLibraries ∧ dashedGraph.IsSingleVersioned ∧
    ∃ r ∈ demandingRules.rules, Aimed dashedGraph r ∧ ∃ q ∈ r.requires, Present dashedGraph q ∧
      ¬ Met dashedGraph q ∧ ∃ message, e = .versionConflict q.package [r.id] message := by
  have hfails : (select dashedGraph demandingRules).toOption.isNone = true := by decide +kernel
  have hlibraries : dashedGraph.NamesLibraries := by decide +kernel
  have hsingle : dashedGraph.IsSingleVersioned := by
    have hall : ∀ p ∈ dashedGraph.packages, ∀ q ∈ dashedGraph.packages, p.version = q.version := by
      decide +kernel
    intro i j p q hp hq _ _ _
    exact hall p (List.mem_of_getElem? hp) q (List.mem_of_getElem? hq)
  cases hselect : select dashedGraph demandingRules with
  | ok s => simp [hselect, Except.toOption] at hfails
  | error e =>
    exact ⟨e, rfl, hlibraries, hsingle, fails_by_one_rule hlibraries hsingle demandingRules hselect⟩

end Selection
end Instrumentation
