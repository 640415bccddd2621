import Instrumentation.Proofs.Packages
import Instrumentation.Proofs.Registered
import Instrumentation.Proofs.VersionOrder
import Instrumentation.Selection
import Mathlib.Data.List.Pairwise

/-!
Which rules are selected. A rule applies if its target and all that it requires are in the program,
each in a version that it can use. Selection succeeds unless a rule requires what is there in other
versions only, or two rules that apply ask for versions that cannot be one (`select_iff`); the
order in which rules are registered has no part in it.
-/
namespace Instrumentation
namespace Selection

/-- The crate that a rule aims at is there in a version for it, and so is the compiler, if it is
known. -/
def Aimed (g : PackageGraph) (r : Rule) : Prop :=
  (∃ v, g.Resolves (fun p => p.crateName == r.targetCrate) v ∧ r.version.contains v) ∧
  ∀ range v, r.rustc = some range → g.rustc = some v → range.contains v

/-- A required package is there, in whatever version. -/
def Present (g : PackageGraph) (q : RequiredPackage) : Prop :=
  ∃ v, g.Resolves (fun p => samePackageName p.name q.package) v

/-- A required package is there in a version that was asked for. -/
def Met (g : PackageGraph) (q : RequiredPackage) : Prop :=
  ∃ v, g.Resolves (fun p => samePackageName p.name q.package) v ∧ q.range.contains v

/-- One of the required packages is there in other versions only, and none before it is absent. -/
def Contradicts (g : PackageGraph) (qs : List RequiredPackage) : Prop :=
  ∃ before q after, qs = before ++ q :: after ∧ (∀ p ∈ before, Present g p) ∧
    Present g q ∧ ¬ Met g q

/-- A rule whose target and requirements are all there, in versions for it. -/
def Applies (g : PackageGraph) (r : Rule) : Prop := Aimed g r ∧ ∀ q ∈ r.requires, Met g q

/-- The ranges that a rule puts on packages, and whether the package is its target. -/
inductive Puts (r : Rule) : (package : String) → VersionRange → (isTarget : Bool) → Prop where
  | target : Puts r r.targetCrate r.version true
  | required {q : RequiredPackage} (h : q ∈ r.requires) : Puts r q.package q.range false

/-- Two rules put disjoint ranges on a package that one of them requires. -/
def Clash (a b : Rule) : Prop :=
  ∃ m n x y s t, Puts a m x s ∧ Puts b n y t ∧ samePackageName m n ∧ (s && t) = false ∧
    x.isDisjoint y

/-- Rules that contradict neither the program nor each other. -/
structure Consistent (g : PackageGraph) (rules : List Rule) : Prop where
  met : ∀ r ∈ rules, Aimed g r → ¬ Contradicts g r.requires
  apart : ∀ a ∈ rules, ∀ b ∈ rules, Applies g a → Applies g b → a ≠ b → ¬ Clash a b

section

variable {g : PackageGraph} {r : Rule}

theorem mem_versionsAt {test : Package → Bool} {v : Version} :
    v ∈ versionsAt g g.reachable (g.numbersWhere test) ↔ g.Resolves test v := by
  have hflag (i : Nat) : (g.reachable[i]?).getD false = true ↔ g.Needs i := by
    rw [← PackageGraph.reachable_eq_true_iff]
    cases g.reachable[i]? <;> simp
  simp only [versionsAt, List.mem_filterMap, List.mem_filter, Option.map_eq_some_iff, hflag,
    PackageGraph.mem_numbersWhere]
  constructor
  · rintro ⟨i, ⟨⟨p, hp, htest⟩, hneeds⟩, p', hp', hv⟩
    cases hp.symm.trans hp'
    exact ⟨i, p, hp, hneeds, htest, hv⟩
  · rintro ⟨i, p, hp, hneeds, htest, hv⟩
    exact ⟨i, ⟨⟨p, hp, htest⟩, hneeds⟩, p, hp, hv⟩

/-- What is there of a required package, as the program looks for it. -/
theorem present_iff {q : RequiredPackage} :
    Present g q ↔ (versionsAt g g.reachable (g.byName q.package)).isEmpty = false := by
  rw [List.isEmpty_eq_false_iff_exists_mem]
  exact exists_congr fun v => mem_versionsAt.symm

theorem met_iff {q : RequiredPackage} :
    Met g q ↔ (versionsAt g g.reachable (g.byName q.package)).any q.range.contains = true := by
  rw [List.any_eq_true]
  exact exists_congr fun v => and_congr_left' mem_versionsAt.symm

theorem Met.present {q : RequiredPackage} (h : Met g q) : Present g q := by
  obtain ⟨v, hv, _⟩ := h
  exact ⟨v, hv⟩

/-- The first requirement decides, unless it is met. -/
theorem contradicts_cons {q : RequiredPackage} {rest : List RequiredPackage} :
    Contradicts g (q :: rest) ↔ Present g q ∧ (¬ Met g q ∨ Contradicts g rest) := by
  constructor
  · rintro ⟨before, p, after, heq, hbefore, hpresent, hmet⟩
    cases before with
    | nil =>
      cases heq
      exact ⟨hpresent, .inl hmet⟩
    | cons b before =>
      cases heq
      refine ⟨hbefore q List.mem_cons_self, .inr ⟨before, p, after, rfl, ?_, hpresent, hmet⟩⟩
      intro p' hp'
      exact hbefore p' (List.mem_cons_of_mem q hp')
  · rintro ⟨hpresent, hmet | ⟨before, p, after, rfl, hbefore, hp, hmet⟩⟩
    · exact ⟨[], q, rest, rfl, by simp, hpresent, hmet⟩
    · exact ⟨q :: before, p, after, rfl, by simpa [hpresent] using hbefore, hp, hmet⟩

theorem not_contradicts_nil : ¬ Contradicts g [] := by
  rintro ⟨before, q, after, heq, _⟩
  simp at heq

theorem requirementsMet_eq_true_iff {qs : List RequiredPackage} :
    requirementsMet g g.reachable r qs = .ok true ↔ ∀ q ∈ qs, Met g q := by
  induction qs with
  | nil => simp [requirementsMet]
  | cons q rest ih =>
    simp only [requirementsMet, List.forall_mem_cons]
    split
    · next hempty =>
      have habsent : ¬ Met g q := fun h => by
        simp [present_iff.mp h.present] at hempty
      simp [habsent]
    · split
      · next hany => simp [ih, met_iff.mpr hany]
      · next hany => simp [mt met_iff.mp hany]

/-- There is no answer exactly if a requirement is contradicted. -/
theorem exists_requirementsMet_iff {qs : List RequiredPackage} :
    (∃ b, requirementsMet g g.reachable r qs = .ok b) ↔ ¬ Contradicts g qs := by
  induction qs with
  | nil => simp [requirementsMet, not_contradicts_nil]
  | cons q rest ih =>
    simp only [requirementsMet, contradicts_cons]
    split
    · next hempty =>
      have habsent : ¬ Present g q := fun h => by
        simp [present_iff.mp h] at hempty
      simp [habsent]
    · next hempty =>
      have hpresent : Present g q := present_iff.mpr (Bool.eq_false_iff.mpr hempty)
      split
      · next hany => simp [ih, met_iff.mpr hany, hpresent]
      · next hany => simp [mt met_iff.mp hany, hpresent]

theorem aimed_iff :
    Aimed g r ↔ ((targets g g.reachable r).any r.version.contains && allowsCompiler g r) = true := by
  have hcompiler : allowsCompiler g r = true ↔
      ∀ range v, r.rustc = some range → g.rustc = some v → range.contains v := by
    unfold allowsCompiler
    cases r.rustc <;> cases g.rustc <;> simp
  have htarget : (targets g g.reachable r).any r.version.contains = true ↔
      ∃ v, g.Resolves (fun p => p.crateName == r.targetCrate) v ∧ r.version.contains v := by
    rw [List.any_eq_true]
    exact exists_congr fun v => and_congr_left' mem_versionsAt
  rw [Bool.and_eq_true, hcompiler, htarget, Aimed]

theorem saysYes_applies : saysYes (applies g g.reachable) r = true ↔ Applies g r := by
  rw [saysYes_eq_true_iff, applies, Applies, aimed_iff]
  split
  · next haimed => simp [haimed, requirementsMet_eq_true_iff]
  · next haimed => simp [haimed]

theorem exists_applies_iff :
    (∃ b, applies g g.reachable r = .ok b) ↔ (Aimed g r → ¬ Contradicts g r.requires) := by
  rw [applies, aimed_iff]
  split
  · next haimed => simp only [haimed, true_implies, exists_requirementsMet_iff]
  · next haimed => simp [haimed]

theorem clashes_comm (a b : Constraint) : clashes a b = clashes b a := by
  simp only [clashes, Bool.and_comm a.isTarget, bne_comm (a := a.rule), VersionRange.isDisjoint_comm]

theorem clashes_self (a : Constraint) : clashes a a = false := by
  simp [clashes]

theorem firstClash?_eq_none_iff {cs : List Constraint} :
    firstClash? cs = none ↔ cs.Pairwise fun a b => clashes a b = false := by
  induction cs with
  | nil => simp [firstClash?]
  | cons a rest ih =>
    rw [List.pairwise_cons, firstClash?]
    split
    · next b hb =>
      have hclash := List.find?_some hb
      have hmem := List.mem_of_find?_eq_some hb
      simp only [reduceCtorEq, false_iff, not_and]
      intro hall
      simp [hall b hmem] at hclash
    · next hnone =>
      have hall : ∀ b ∈ rest, clashes a b = false := by
        simpa using List.find?_eq_none.mp hnone
      simp only [ih, iff_and_self]
      intro _
      exact hall

/-- Clashes are looked for among constraints on one package, whichever of them comes first. -/
theorem clash?_eq_none_iff {rules : List Rule} : clash? rules = none ↔
    ∀ a ∈ rules.flatMap constraints, ∀ b ∈ rules.flatMap constraints, a.package = b.package →
      clashes a b = false := by
  have hsymm : Std.Symm fun a b : Constraint => clashes a b = false :=
    ⟨fun a b h => clashes_comm b a ▸ h⟩
  simp only [clash?, List.findSome?_eq_none_iff, firstClash?_eq_none_iff, Text.mem_sortedSet,
    List.mem_map, forall_exists_index, and_imp, forall_apply_eq_imp_iff₂]
  constructor
  · intro h a ha b hb hsame
    refine (h a ha).forall_of_forall (fun c _ => clashes_self c) ?_ ?_
    · simpa using ha
    · simpa [hsame] using hb
  · intro h p hp
    refine List.pairwise_of_forall_mem_list fun a ha b hb => ?_
    rw [List.mem_filter, beq_iff_eq] at ha hb
    exact h a ha.1 b hb.1 (ha.2.trans hb.2.symm)

theorem mem_constraints {c : Constraint} :
    c ∈ constraints r ↔ ∃ m x s, Puts r m x s ∧ c = ⟨underscored m, r.id, x, s⟩ := by
  simp only [constraints, List.mem_cons, List.mem_map]
  constructor
  · rintro (rfl | ⟨q, hq, rfl⟩)
    · exact ⟨_, _, _, .target, rfl⟩
    · exact ⟨_, _, _, .required hq, rfl⟩
  · rintro ⟨m, x, s, hputs, rfl⟩
    cases hputs with
    | target => exact .inl rfl
    | required hq => exact .inr ⟨_, hq, rfl⟩

theorem clash_iff {a b : Rule} (hne : a.id ≠ b.id) :
    Clash a b ↔ ∃ c ∈ constraints a, ∃ d ∈ constraints b, c.package = d.package ∧
      clashes c d = true := by
  constructor
  · rintro ⟨m, n, x, y, s, t, ha, hb, hsame, htarget, hdisjoint⟩
    refine ⟨_, mem_constraints.mpr ⟨m, x, s, ha, rfl⟩, _, mem_constraints.mpr ⟨n, y, t, hb, rfl⟩,
      by simpa [samePackageName] using hsame, ?_⟩
    simp [clashes, htarget, hne, hdisjoint]
  · rintro ⟨c, hc, d, hd, hsame, hclash⟩
    obtain ⟨m, x, s, ha, rfl⟩ := mem_constraints.mp hc
    obtain ⟨n, y, t, hb, rfl⟩ := mem_constraints.mp hd
    simp only [clashes, Bool.and_eq_true, Bool.not_eq_true'] at hclash
    exact ⟨m, n, x, y, s, t, ha, hb, by simpa [samePackageName] using hsame, hclash.1.1, hclash.2⟩

theorem rule_of_mem_constraints {c : Constraint} (h : c ∈ constraints r) : c.rule = r.id := by
  obtain ⟨m, x, s, _, rfl⟩ := mem_constraints.mp h
  rfl

/-- There is no clash among rules if there is none between two of them. -/
theorem clash?_eq_none_iff_of_ids {rules : List Rule} : clash? rules = none ↔
    ∀ a ∈ rules, ∀ b ∈ rules, a.id ≠ b.id → ¬ Clash a b := by
  simp only [clash?_eq_none_iff, List.mem_flatMap, forall_exists_index, and_imp]
  constructor
  · intro h a ha b hb hne hclash
    obtain ⟨c, hc, d, hd, hsame, hclash⟩ := (clash_iff hne).mp hclash
    rw [h c a ha hc d b hb hd hsame] at hclash
    cases hclash
  · intro h c a ha hc d b hb hd hsame
    by_cases hid : a.id = b.id
    · simp [clashes, rule_of_mem_constraints hc, rule_of_mem_constraints hd, hid]
    · refine Bool.eq_false_iff.mpr fun hclash => h a ha b hb hid ?_
      exact (clash_iff hid).mpr ⟨c, hc, d, hd, hsame, hclash⟩

end

section

variable {g : PackageGraph} {registry : Registry}

/-- The rules that are kept by their ids are those that apply. -/
theorem retain_eq (h : registry.Distinct) {p : Rule → Bool} :
    registry.retain (fun r => (registry.rules.filter p).any (·.id == r.id)) =
      registry.retain p := by
  have hkeep : ∀ r ∈ registry.rules,
      (registry.rules.filter p).any (·.id == r.id) = p r := by
    intro r hr
    rw [Bool.eq_iff_iff, List.any_eq_true]
    constructor
    · rintro ⟨k, hk, hid⟩
      rw [List.mem_filter] at hk
      rw [← h.eq_of_id hk.1 hr (beq_iff_eq.mp hid)]
      exact hk.2
    · intro hp
      exact ⟨r, List.mem_filter.mpr ⟨hr, hp⟩, beq_self_eq_true _⟩
  simp only [Registry.retain, List.filter_congr hkeep]

theorem consistent_iff (h : registry.Distinct) : Consistent g registry.rules ↔
    (∀ r ∈ registry.rules, ∃ b, applies g g.reachable r = .ok b) ∧
      clash? (registry.rules.filter (saysYes (applies g g.reachable))) = none := by
  simp only [exists_applies_iff, clash?_eq_none_iff_of_ids, List.mem_filter, saysYes_applies]
  constructor
  · intro hc
    refine ⟨hc.met, ?_⟩
    rintro a ⟨ha, happlies⟩ b ⟨hb, hbpplies⟩ hne
    exact hc.apart a ha b hb happlies hbpplies fun heq => hne (congrArg Rule.id heq)
  · rintro ⟨hmet, hapart⟩
    refine ⟨hmet, ?_⟩
    intro a ha b hb happlies hbpplies hne
    exact hapart a ⟨ha, happlies⟩ b ⟨hb, hbpplies⟩ fun hid => hne (h.eq_of_id ha hb hid)

/-- Selection succeeds on consistent rules, and keeps those that apply. -/
theorem select_eq_ok_iff (h : registry.Distinct) {s : Registry} : select g registry = .ok s ↔
    Consistent g registry.rules ∧ s = registry.retain (saysYes (applies g g.reachable)) := by
  rw [consistent_iff h]
  constructor
  · intro hs
    obtain ⟨selected, hselected, hs⟩ := exists_of_bind_eq_ok hs
    obtain ⟨hall, rfl⟩ := filterM_eq_ok_iff.mp hselected
    split at hs
    · cases hs
    · next hnone =>
      cases hs
      exact ⟨⟨hall, hnone⟩, retain_eq h⟩
  · rintro ⟨⟨hall, hnone⟩, rfl⟩
    rw [← retain_eq h]
    simp only [select, filterM_eq_ok_iff.mpr ⟨hall, rfl⟩]
    simp only [bind, Except.bind, hnone]
    rfl

theorem mem_retain_saysYes {r : Rule} :
    r ∈ (registry.retain (saysYes (applies g g.reachable))).rules ↔
      r ∈ registry.rules ∧ Applies g r := by
  rw [Registry.rules_retain, List.mem_filter, saysYes_applies]

/-- Neither applying nor asking for versions has to do with the number of a rule. -/
theorem applies_unnumbered (r : Rule) : Applies g r.unnumbered ↔ Applies g r := Iff.rfl

theorem puts_unnumbered {r : Rule} {m : String} {x : VersionRange} {s : Bool} :
    Puts r.unnumbered m x s ↔ Puts r m x s := by
  constructor
  · intro h
    cases h with
    | target => exact .target
    | required hq => exact .required hq
  · intro h
    cases h with
    | target => exact .target (r := r.unnumbered)
    | required hq => exact .required (r := r.unnumbered) hq

theorem clash_unnumbered (a b : Rule) : Clash a.unnumbered b.unnumbered ↔ Clash a b := by
  simp only [Clash, puts_unnumbered]

theorem Consistent.of_sameRules {other : Registry} (hc : Consistent g registry.rules)
    (hdistinct : other.Distinct) (hsame : registry.SameRules other) :
    Consistent g other.rules := by
  constructor
  · intro r hr haimed
    obtain ⟨k, hk, heq⟩ := hsame.exists_rule hr
    have haimed' : Aimed g k := (congrArg (Aimed g) heq).mpr haimed
    have hmet : ¬ Contradicts g k.unnumbered.requires := hc.met k hk haimed'
    rw [heq] at hmet
    exact hmet
  · intro a ha b hb happlies hbpplies hne
    obtain ⟨k, hk, hka⟩ := hsame.exists_rule ha
    obtain ⟨l, hl, hlb⟩ := hsame.exists_rule hb
    have hkl : k ≠ l := by
      rintro rfl
      have hid : a.unnumbered.id = b.unnumbered.id := by rw [← hka, hlb]
      exact hne (hdistinct.eq_of_id ha hb hid)
    rw [← clash_unnumbered, ← hka, ← hlb, clash_unnumbered]
    refine hc.apart k hk l hl ?_ ?_ hkl
    · exact (congrArg (Applies g) hka).mpr happlies
    · exact (congrArg (Applies g) hlb).mpr hbpplies

/-- What is selected from the same rules are the same rules. -/
theorem sameRules_retain {other : Registry} (hsame : registry.SameRules other) :
    (registry.retain (saysYes (applies g g.reachable))).SameRules
      (other.retain (saysYes (applies g g.reachable))) := by
  have hfilter (rules : List Rule) : (rules.filter (saysYes (applies g g.reachable))).map
      Rule.unnumbered = (rules.map Rule.unnumbered).filter (saysYes (applies g g.reachable)) := by
    rw [List.filter_map]
    refine congrArg _ (List.filter_congr fun r _ => ?_)
    rw [Function.comp_apply, Bool.eq_iff_iff, saysYes_applies, saysYes_applies, applies_unnumbered]
  unfold Registry.SameRules
  rw [Registry.rules_retain, Registry.rules_retain, hfilter, hfilter]
  exact hsame.filter _

end

/-- Selection succeeds exactly on rules that contradict neither the program nor each other. Then it
keeps the rules that apply, as they are and in their order. Registering the rules in another order
changes neither. -/
theorem select_iff {registry : Registry} (h : registry.Loaded) (g : PackageGraph) :
    ((∃ s, select g registry = .ok s) ↔ Consistent g registry.rules) ∧
    (∀ s, select g registry = .ok s → s.rules.Sublist registry.rules ∧
      ∀ r, r ∈ s.rules ↔ r ∈ registry.rules ∧ Applies g r) ∧
    ∀ other : Registry, other.Loaded → registry.SameRules other →
      ((∃ s, select g other = .ok s) ↔ ∃ s, select g registry = .ok s) ∧
      ∀ s s', select g registry = .ok s → select g other = .ok s' → s.SameRules s' := by
  have hsucceeds {registry : Registry} (h : registry.Loaded) :
      (∃ s, select g registry = .ok s) ↔ Consistent g registry.rules := by
    simp only [select_eq_ok_iff h.distinct, exists_and_left, exists_eq, and_true]
  refine ⟨hsucceeds h, ?_, ?_⟩
  · intro s hs
    obtain ⟨_, rfl⟩ := (select_eq_ok_iff h.distinct).mp hs
    exact ⟨List.filter_sublist, fun r => mem_retain_saysYes⟩
  · intro other hother hsame
    constructor
    · rw [hsucceeds hother, hsucceeds h]
      constructor
      · intro hc
        exact hc.of_sameRules h.distinct hsame.symm
      · intro hc
        exact hc.of_sameRules hother.distinct hsame
    · intro s s' hs hs'
      obtain ⟨_, rfl⟩ := (select_eq_ok_iff h.distinct).mp hs
      obtain ⟨_, rfl⟩ := (select_eq_ok_iff hother.distinct).mp hs'
      exact sameRules_retain hsame

/-- A rule that requires what is not there. -/
def requiringSource : RuleSource :=
  ⟨"requiring", .toml, ruleText "b" ++ "[[rule.requires]]\npackage=\"d\"\n", ⟨"/"⟩⟩

/-- The rule that applies is selected, whichever file comes first. -/
theorem select_iff_twoFiles : ∃ x y s s',
    Registry.load hookTree [plainSource, requiringSource] = .ok x ∧
    Registry.load hookTree [requiringSource, plainSource] = .ok y ∧ x.SameRules y ∧
    select graphP x = .ok s ∧ select graphP y = .ok s' ∧ s.rules.map Rule.id = ["a"] ∧
    Consistent graphP x.rules ∧ s.SameRules s' := by
  have hloads : (Registry.load hookTree [plainSource, requiringSource]).toOption.any (fun x =>
      (Registry.load hookTree [requiringSource, plainSource]).toOption.any fun y =>
        decide (x.SameRules y) && (select graphP x).toOption.any fun s =>
          s.rules.map Rule.id == ["a"]) = true := by
    decide +kernel
  obtain ⟨x, hx, hloads⟩ := exists_ok_of_any hloads
  obtain ⟨y, hy, hloads⟩ := exists_ok_of_any hloads
  rw [Bool.and_eq_true, decide_eq_true_eq] at hloads
  obtain ⟨hsame, hselect⟩ := hloads
  obtain ⟨s, hs, hids⟩ := exists_ok_of_any hselect
  obtain ⟨hconsistent, _, hother⟩ := select_iff (.load hx) graphP
  obtain ⟨hsucceeds, hresults⟩ := hother y (.load hy) hsame
  obtain ⟨s', hs'⟩ := hsucceeds.mpr ⟨s, hs⟩
  exact ⟨x, y, s, s', hx, hy, hsame, hs, hs', beq_iff_eq.mp hids, hconsistent.mp ⟨s, hs⟩,
    hresults s s' hs hs'⟩

end Selection
end Instrumentation
