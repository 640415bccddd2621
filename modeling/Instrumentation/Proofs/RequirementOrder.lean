import Instrumentation.Proofs.Selection
import Mathlib.Data.List.Forall2

/-!
The order of the requirements of a rule. The first one that is not met decides about the rule: an
absent package has it passed over, and one that is there in other versions only ends the run. So the
order is of no account, unless a rule whose target is there requires packages of both kinds.
-/
namespace Instrumentation

/-- The same rule, except for the order in which it lists its requirements. -/
def Rule.Reordered (a b : Rule) : Prop :=
  ∃ requires, a.requires.Perm requires ∧ b = { a with requires }

/-- The same rules in the same places, except for the order of their requirements. -/
structure Registry.Reordered (x y : Registry) : Prop where
  rules : List.Forall₂ Rule.Reordered x.rules y.rules
  hookCrates : x.hookCrates = y.hookCrates

theorem Rule.reordered_iff {a b : Rule} :
    a.Reordered b ↔ a.requires.Perm b.requires ∧ b = { a with requires := b.requires } := by
  constructor
  · rintro ⟨requires, hperm, rfl⟩
    exact ⟨hperm, rfl⟩
  · rintro ⟨hperm, heq⟩
    exact ⟨b.requires, hperm, heq⟩

instance (a b : Rule) : Decidable (a.Reordered b) := decidable_of_iff _ Rule.reordered_iff.symm

instance (x y : Registry) : Decidable (x.Reordered y) :=
  decidable_of_iff (List.Forall₂ Rule.Reordered x.rules y.rules ∧ x.hookCrates = y.hookCrates)
    ⟨fun h => ⟨h.1, h.2⟩, fun h => ⟨h.rules, h.hookCrates⟩⟩

namespace Rule.Reordered

variable {a b : Rule}

theorem refl (a : Rule) : a.Reordered a := ⟨a.requires, .refl _, rfl⟩

theorem symm (h : a.Reordered b) : b.Reordered a := by
  obtain ⟨requires, hperm, rfl⟩ := h
  exact ⟨a.requires, hperm.symm, rfl⟩

theorem mem_requires_iff (h : a.Reordered b) {q : RequiredPackage} :
    q ∈ b.requires ↔ q ∈ a.requires := by
  obtain ⟨requires, hperm, rfl⟩ := h
  exact hperm.mem_iff.symm

theorem id_eq (h : a.Reordered b) : b.id = a.id := by
  obtain ⟨_, _, rfl⟩ := h
  rfl

theorem order_eq (h : a.Reordered b) : b.order = a.order := by
  obtain ⟨_, _, rfl⟩ := h
  rfl

end Rule.Reordered

namespace Registry.Reordered

variable {x y : Registry}

theorem symm (h : x.Reordered y) : y.Reordered x :=
  ⟨(List.Forall₂.flip h.rules).imp fun _ _ hab => Rule.Reordered.symm hab, h.hookCrates.symm⟩

theorem exists_rule (h : x.Reordered y) {b : Rule} (hb : b ∈ y.rules) :
    ∃ a ∈ x.rules, a.Reordered b := by
  have hrules := h.rules
  generalize x.rules = as, y.rules = bs at hrules hb
  induction hrules with
  | nil => cases hb
  | @cons a b' as bs hab _ ih =>
    rcases List.mem_cons.mp hb with rfl | hb
    · exact ⟨a, List.mem_cons_self, hab⟩
    · obtain ⟨a', ha', hab'⟩ := ih hb
      exact ⟨a', List.mem_cons_of_mem a ha', hab'⟩

/-- What does not depend on the order of requirements is the same for the rules one by one. -/
theorem map_eq {α : Type} (h : x.Reordered y) {f : Rule → α}
    (hf : ∀ a b : Rule, a.Reordered b → f b = f a) : y.rules.map f = x.rules.map f := by
  rw [← List.forall₂_eq_eq_eq, List.forall₂_map_left_iff, List.forall₂_map_right_iff]
  exact (List.Forall₂.flip h.rules).imp fun b a hab => hf a b hab

theorem distinct (h : x.Reordered y) (hx : x.Distinct) : y.Distinct := by
  constructor
  · rw [← List.pairwise_map (R := (· < ·)), h.map_eq fun _ _ hab => hab.order_eq, List.pairwise_map]
    exact hx.orders
  · rw [← List.pairwise_map (R := (· ≠ ·)), h.map_eq fun _ _ hab => hab.id_eq, List.pairwise_map]
    exact hx.ids

end Registry.Reordered

namespace Selection

variable {g : PackageGraph} {a b r : Rule} {qs qs' : List RequiredPackage}

/-- A required package that is there, but in other versions only. -/
def Unusable (g : PackageGraph) (q : RequiredPackage) : Prop := Present g q ∧ ¬ Met g q

/-- A rule whose target is there, and that requires both what is absent and what is there in other
versions only. -/
structure Undecided (g : PackageGraph) (r : Rule) : Prop where
  aimed : Aimed g r
  absent : ∃ q ∈ r.requires, ¬ Present g q
  unusable : ∃ q ∈ r.requires, Unusable g q

instance (q : RequiredPackage) : Decidable (Present g q) := decidable_of_iff _ present_iff.symm

instance (q : RequiredPackage) : Decidable (Met g q) := decidable_of_iff _ met_iff.symm

instance (q : RequiredPackage) : Decidable (Unusable g q) :=
  inferInstanceAs (Decidable (Present g q ∧ ¬ Met g q))

instance (r : Rule) : Decidable (Aimed g r) := decidable_of_iff _ aimed_iff.symm

instance (r : Rule) : Decidable (Undecided g r) :=
  decidable_of_iff
    (Aimed g r ∧ (∃ q ∈ r.requires, ¬ Present g q) ∧ ∃ q ∈ r.requires, Unusable g q)
    ⟨fun h => ⟨h.1, h.2.1, h.2.2⟩, fun h => ⟨h.aimed, h.absent, h.unusable⟩⟩

theorem aimed_reordered (h : a.Reordered b) : Aimed g b ↔ Aimed g a := by
  obtain ⟨_, _, rfl⟩ := h
  exact Iff.rfl

theorem applies_reordered (h : a.Reordered b) : Applies g b ↔ Applies g a := by
  simp only [Applies, aimed_reordered h, h.mem_requires_iff]

theorem Undecided.reordered (h : a.Reordered b) (ha : Undecided g a) : Undecided g b := by
  refine ⟨(aimed_reordered h).mpr ha.aimed, ?_, ?_⟩
  · simpa only [h.mem_requires_iff] using ha.absent
  · simpa only [h.mem_requires_iff] using ha.unusable

theorem Puts.reordered (h : a.Reordered b) {m : String} {v : VersionRange} {s : Bool}
    (hputs : Puts a m v s) : Puts b m v s := by
  cases hputs with
  | target =>
    obtain ⟨_, _, rfl⟩ := h
    exact .target
  | required hq => exact .required (h.mem_requires_iff.mpr hq)

theorem Clash.reordered {c d : Rule} (hab : a.Reordered b) (hcd : c.Reordered d) (h : Clash a c) :
    Clash b d := by
  obtain ⟨m, n, v, w, s, t, ha, hc, hrest⟩ := h
  exact ⟨m, n, v, w, s, t, ha.reordered hab, hc.reordered hcd, hrest⟩

theorem exists_unusable_of_contradicts (h : Contradicts g qs) : ∃ q ∈ qs, Unusable g q := by
  obtain ⟨before, q, after, rfl, -, hq⟩ := h
  exact ⟨q, by simp, hq⟩

/-- Where all packages are there, an unusable one contradicts the rule, wherever it stands. -/
theorem contradicts_of_present (hall : ∀ q ∈ qs, Present g q) {q : RequiredPackage} (hq : q ∈ qs)
    (hunusable : Unusable g q) : Contradicts g qs := by
  obtain ⟨before, after, rfl⟩ := List.append_of_mem hq
  exact ⟨before, q, after, rfl, fun p hp => hall p (by simp [hp]), hunusable⟩

theorem contradicts_of_reordered (h : a.Reordered b) (haimed : Aimed g a)
    (hdecided : ¬ Undecided g a) (hb : Contradicts g b.requires) : Contradicts g a.requires := by
  obtain ⟨q, hq, hunusable⟩ := exists_unusable_of_contradicts hb
  have hqa := h.mem_requires_iff.mp hq
  refine contradicts_of_present ?_ hqa hunusable
  intro p hp
  by_contra habsent
  exact hdecided ⟨haimed, ⟨p, hp, habsent⟩, ⟨q, hqa, hunusable⟩⟩

theorem Consistent.reordered {x y : Registry} (h : x.Reordered y) (hx : x.Distinct)
    (hdecided : ∀ r ∈ x.rules, ¬ Undecided g r) (hc : Consistent g x.rules) :
    Consistent g y.rules := by
  constructor
  · intro b hb haimed hcontradicts
    obtain ⟨a, ha, hab⟩ := h.exists_rule hb
    have haimed' := (aimed_reordered hab).mp haimed
    exact hc.met a ha haimed' (contradicts_of_reordered hab haimed' (hdecided a ha) hcontradicts)
  · intro b hb d hd hbapplies hdapplies hne hclash
    obtain ⟨a, ha, hab⟩ := h.exists_rule hb
    obtain ⟨c, hcmem, hcd⟩ := h.exists_rule hd
    have hne' : a ≠ c := by
      rintro rfl
      exact hne ((h.distinct hx).eq_of_id hb hd (hab.id_eq.trans hcd.id_eq.symm))
    exact hc.apart a ha c hcmem ((applies_reordered hab).mp hbapplies)
      ((applies_reordered hcd).mp hdapplies) hne' (hclash.reordered hab.symm hcd.symm)

theorem exists_perm_cons {q : RequiredPackage} (h : q ∈ qs) : ∃ rest, qs.Perm (q :: rest) := by
  obtain ⟨before, after, rfl⟩ := List.append_of_mem h
  exact ⟨before ++ after, List.perm_middle⟩

/-- A rule that requires an unusable package is contradicted once that package is listed first. -/
theorem exists_reordered_contradicts (h : ∃ q ∈ r.requires, Unusable g q) :
    ∃ b, r.Reordered b ∧ Contradicts g b.requires := by
  obtain ⟨q, hq, hunusable⟩ := h
  obtain ⟨requires, hperm⟩ := exists_perm_cons hq
  exact ⟨{ r with requires := q :: requires }, ⟨_, hperm, rfl⟩, [], q, requires, rfl, by simp,
    hunusable⟩

/-- A rule that requires an absent package is passed over once that package is listed first. -/
theorem exists_reordered_passedOver (h : ∃ q ∈ r.requires, ¬ Present g q) :
    ∃ b, r.Reordered b ∧ applies g g.reachable b = .ok false := by
  obtain ⟨q, hq, habsent⟩ := h
  obtain ⟨requires, hperm⟩ := exists_perm_cons hq
  refine ⟨{ r with requires := q :: requires }, ⟨_, hperm, rfl⟩, ?_⟩
  have hempty : (versionsAt g g.reachable (g.byName q.package)).isEmpty = true := by
    simpa using mt present_iff.mpr habsent
  simp [applies, requirementsMet, hempty]

theorem exists_registry_reordered {x : Registry} (hr : r ∈ x.rules) (h : r.Reordered b) :
    ∃ y : Registry, x.Reordered y ∧ b ∈ y.rules := by
  obtain ⟨before, after, heq⟩ := List.append_of_mem hr
  refine ⟨.ofRules (before ++ b :: after) x.hookCrates, ⟨?_, rfl⟩, by simp [Registry.ofRules]⟩
  have hsame (rules : List Rule) : List.Forall₂ Rule.Reordered rules rules :=
    List.forall₂_same.mpr fun a _ => .refl a
  rw [heq]
  exact List.rel_append (hsame before) (.cons h (hsame after))

theorem reordered_retain {x y : Registry} (h : x.Reordered y) :
    (x.retain (saysYes (applies g g.reachable))).Reordered
      (y.retain (saysYes (applies g g.reachable))) := by
  refine ⟨?_, h.hookCrates⟩
  rw [Registry.rules_retain, Registry.rules_retain]
  refine List.rel_filter ?_ h.rules
  intro a b hab
  change saysYes _ a = true ↔ saysYes _ b = true
  rw [saysYes_applies, saysYes_applies]
  exact (applies_reordered hab).symm

/-- Registries that differ in the order of requirements have the same rules selected, if any are.
One of them is selected from exactly if the other is, as long as no rule whose target is there
requires an absent package together with one that is there in other versions only. Such a rule is
passed over with one order of its requirements, and with another one selection fails. -/
theorem select_reordered {x : Registry} (hx : x.Loaded) (g : PackageGraph) :
    (∀ y s s', x.Reordered y → select g x = .ok s → select g y = .ok s' → s.Reordered s') ∧
    ((∀ r ∈ x.rules, ¬ Undecided g r) → ∀ y, x.Reordered y →
      ((∃ s, select g y = .ok s) ↔ ∃ s, select g x = .ok s)) ∧
    (∀ r ∈ x.rules, Undecided g r →
      (∃ b, r.Reordered b ∧ applies g g.reachable b = .ok false) ∧
      ∃ y, x.Reordered y ∧ ¬ ∃ s, select g y = .ok s) := by
  have hsucceeds {y : Registry} (hy : y.Distinct) :
      (∃ s, select g y = .ok s) ↔ Consistent g y.rules := by
    simp only [select_eq_ok_iff hy, exists_and_left, exists_eq, and_true]
  refine ⟨?_, ?_, ?_⟩
  · intro y s s' h hs hs'
    obtain ⟨-, rfl⟩ := (select_eq_ok_iff hx.distinct).mp hs
    obtain ⟨-, rfl⟩ := (select_eq_ok_iff (h.distinct hx.distinct)).mp hs'
    exact reordered_retain h
  · intro hdecided y h
    rw [hsucceeds hx.distinct, hsucceeds (h.distinct hx.distinct)]
    constructor
    · refine Consistent.reordered h.symm (h.distinct hx.distinct) ?_
      intro b hb hundecided
      obtain ⟨a, ha, hab⟩ := h.exists_rule hb
      exact hdecided a ha (Undecided.reordered hab.symm hundecided)
    · exact Consistent.reordered h hx.distinct hdecided
  · intro r hr hundecided
    obtain ⟨b, hrb, hcontradicts⟩ := exists_reordered_contradicts hundecided.unusable
    obtain ⟨y, hy, hb⟩ := exists_registry_reordered hr hrb
    refine ⟨exists_reordered_passedOver hundecided.absent, y, hy, ?_⟩
    rw [hsucceeds (hy.distinct hx.distinct)]
    intro hc
    exact hc.met b hb ((aimed_reordered hrb).mpr hundecided.aimed) hcontradicts

/-- A requirement in a rule file. -/
def requiresText (package version : String) : String :=
  "[[rule.requires]]\npackage=\"" ++ package ++ "\"\nversion=\"" ++ version ++ "\"\n"

/-- A rule that requires what is there in another version only, and then what is absent. -/
def unusableFirst : RuleSource :=
  ⟨"rules", .toml, ruleText "a" ++ requiresText "p" ">=2" ++ requiresText "d" "1", ⟨"/"⟩⟩

def absentFirst : RuleSource :=
  ⟨"rules", .toml, ruleText "a" ++ requiresText "d" "1" ++ requiresText "p" ">=2", ⟨"/"⟩⟩

theorem loads_twoOrders : ∃ x y, Registry.load hookTree [absentFirst] = .ok x ∧
    Registry.load hookTree [unusableFirst] = .ok y ∧ x.Reordered y ∧
    (∃ r ∈ x.rules, Undecided graphP r) ∧
    ((select graphP x).toOption.any fun s => s.rules.isEmpty) = true ∧
    (select graphP y).toOption.isNone = true := by
  have hloads : (Registry.load hookTree [absentFirst]).toOption.any (fun x =>
      (Registry.load hookTree [unusableFirst]).toOption.any fun y =>
        decide (x.Reordered y ∧ (∃ r ∈ x.rules, Undecided graphP r) ∧
          ((select graphP x).toOption.any fun s => s.rules.isEmpty) = true ∧
          (select graphP y).toOption.isNone = true)) = true := by
    decide +kernel
  obtain ⟨x, hx, hloads⟩ := exists_ok_of_any hloads
  obtain ⟨y, hy, hloads⟩ := exists_ok_of_any hloads
  exact ⟨x, y, hx, hy, of_decide_eq_true hloads⟩

/-- From a registry with an absent package first a rule is passed over that another order makes a
failure. -/
theorem select_reordered_absentFirst : ∃ (x : Registry) (r : Rule), x.Loaded ∧ r ∈ x.rules ∧
    Undecided graphP r ∧
    (∃ b, r.Reordered b ∧ applies graphP graphP.reachable b = .ok false) ∧
    ∃ y, x.Reordered y ∧ ¬ ∃ s, select graphP y = .ok s := by
  obtain ⟨x, _, hx, -, -, ⟨r, hr, hundecided⟩, -⟩ := loads_twoOrders
  obtain ⟨-, -, horders⟩ := select_reordered (.load hx) graphP
  exact ⟨x, r, .load hx, hr, hundecided, horders r hr hundecided⟩

/-- The same two requirements in the two orders: from one registry no rule is selected, and from the
other one selection fails. -/
theorem select_twoOrders : ∃ x y : Registry, x.Loaded ∧ y.Loaded ∧ x.Reordered y ∧
    (∃ s, select graphP x = .ok s ∧ s.rules = []) ∧ ¬ ∃ s, select graphP y = .ok s := by
  obtain ⟨x, y, hx, hy, hsame, -, hselects, hfails⟩ := loads_twoOrders
  obtain ⟨s, hs, hnone⟩ := exists_ok_of_any hselects
  refine ⟨x, y, .load hx, .load hy, hsame, ⟨s, hs, List.isEmpty_iff.mp hnone⟩, ?_⟩
  rintro ⟨s', hs'⟩
  rw [hs'] at hfails
  cases hfails

end Selection
end Instrumentation
