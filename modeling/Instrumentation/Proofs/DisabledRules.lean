import Instrumentation.Invocation.Switch
import Instrumentation.Optimization
import Instrumentation.Proofs.WrittenVersions
import Instrumentation.Rule.Definition
import Mathlib.Data.List.TakeWhile

/-!
The rules that a list of names turns off: as the setting of a running program, and as part of a
build. The word for all rules has its meaning anywhere in the list of a build, but in a setting only
where it stands alone; apart from that the two turn off the same rules.
-/
namespace Instrumentation

namespace Text

variable {before word after cs : List Char}

theorem trim_of_blank (h : ∀ c ∈ cs, isBlank c = true) : trim cs = [] := by
  rw [trim, List.dropWhile_eq_nil_iff.mpr h]
  rfl

/-- Blanks at the ends of a text make no difference once it is trimmed. -/
theorem trim_padded (hbefore : ∀ c ∈ before, isBlank c = true)
    (hafter : ∀ c ∈ after, isBlank c = true) : trim (before ++ (cs ++ after)) = trim cs := by
  have hend (xs : List Char) : trimEnd (xs ++ after) = trimEnd xs := by
    rw [trimEnd, List.reverse_append, List.dropWhile_append_of_pos]
    · rfl
    · simpa using hafter
  rw [trim, List.dropWhile_append_of_pos hbefore, List.dropWhile_append]
  split
  · next hempty =>
    rw [List.dropWhile_eq_nil_iff.mpr hafter, trim, List.isEmpty_iff.mp hempty]
  · exact hend _

/-- A character that is no blank stays when a text is trimmed. -/
theorem mem_trim {c : Char} (hc : c ∈ cs) (hblank : isBlank c = false) : c ∈ trim cs := by
  have hdropped {xs : List Char} (hc : c ∈ xs) : c ∈ xs.dropWhile isBlank := by
    rw [← List.takeWhile_append_dropWhile (p := isBlank) (l := xs), List.mem_append] at hc
    rcases hc with hc | hc
    · rw [List.mem_takeWhile_imp hc] at hblank
      cases hblank
    · exact hc
  rw [trim, trimEnd, List.mem_reverse]
  exact hdropped (List.mem_reverse.mpr (hdropped hc))

end Text

/-- The names of a list with commas between them and blanks around them. -/
inductive Spells : List String → List Char → Prop where
  | none {blanks : List Char} (h : ∀ c ∈ blanks, Text.isBlank c = true) : Spells [] blanks
  | last (name : String) (before after : List Char) (hbefore : ∀ c ∈ before, Text.isBlank c = true)
    (hafter : ∀ c ∈ after, Text.isBlank c = true) :
    Spells [name] (before ++ (name.toList ++ after))
  | next (name : String) (before after : List Char) {names : List String} {cs : List Char}
    (hbefore : ∀ c ∈ before, Text.isBlank c = true) (hafter : ∀ c ∈ after, Text.isBlank c = true)
    (hnames : names ≠ []) (hcs : Spells names cs) :
    Spells (name :: names) (before ++ (name.toList ++ after) ++ ',' :: cs)

variable {names : List String} {cs : List Char}

theorem isBlank_of_isRuleId {name : String} (h : isRuleId name = true) :
    ∀ c ∈ name.toList, Text.isBlank c = false := by
  intro c hc
  simp only [isRuleId, Bool.and_eq_true, List.all_eq_true, Bool.or_eq_true, beq_iff_eq] at h
  rcases h.2 c hc with ((hc | rfl) | rfl) | rfl
  · exact Version.isBlank_of_isLabelChar (by simp [Version.isLabelChar, hc])
  · rfl
  · rfl
  · rfl

theorem isEmpty_of_isRuleId {name : String} (h : isRuleId name = true) : name.isEmpty = false := by
  simp only [isRuleId, Bool.and_eq_true, Bool.not_eq_true'] at h
  exact h.1

theorem comma_not_mem_of_isRuleId {name : String} (h : isRuleId name = true) :
    ',' ∉ name.toList := by
  intro hc
  simp only [isRuleId, Bool.and_eq_true, List.all_eq_true] at h
  have hcomma := h.2 ',' hc
  revert hcomma
  decide

theorem comma_not_mem_of_blank (h : ∀ c ∈ cs, Text.isBlank c = true) : ',' ∉ cs :=
  fun hc => absurd (h ',' hc) (by decide)

section

variable {name : String} {before after : List Char}

theorem comma_not_mem_padded (hname : isRuleId name = true)
    (hbefore : ∀ c ∈ before, Text.isBlank c = true) (hafter : ∀ c ∈ after, Text.isBlank c = true) :
    ',' ∉ before ++ (name.toList ++ after) := by
  simp [comma_not_mem_of_blank hbefore, comma_not_mem_of_isRuleId hname,
    comma_not_mem_of_blank hafter]

theorem trim_padded_of_isRuleId (hname : isRuleId name = true)
    (hbefore : ∀ c ∈ before, Text.isBlank c = true) (hafter : ∀ c ∈ after, Text.isBlank c = true) :
    Text.trim (before ++ (name.toList ++ after)) = name.toList := by
  rw [Text.trim_padded hbefore hafter, Text.trim_of_not_blank (isBlank_of_isRuleId hname)]

end

/-- The names are what stands between the commas. -/
theorem Spells.entries (h : Spells names cs) (hids : ∀ name ∈ names, isRuleId name = true) :
    ((Text.pieces ',' cs).map fun p => String.ofList (Text.trim p)).filter (fun s => !s.isEmpty) =
      names := by
  induction h with
  | none hblank =>
    rw [Text.pieces_of_not_mem (comma_not_mem_of_blank hblank)]
    simp [Text.trim_of_blank hblank]
  | last name before after hbefore hafter =>
    have hid := hids name List.mem_cons_self
    rw [Text.pieces_of_not_mem (comma_not_mem_padded hid hbefore hafter)]
    simp [trim_padded_of_isRuleId hid hbefore hafter, isEmpty_of_isRuleId hid]
  | next name before after hbefore hafter _ _ ih =>
    have hid := hids name List.mem_cons_self
    rw [Text.pieces_append, Text.pieces_of_not_mem (comma_not_mem_padded hid hbefore hafter),
      List.map_append, List.filter_append, ih fun n hn => hids n (List.mem_cons_of_mem name hn)]
    simp [trim_padded_of_isRuleId hid hbefore hafter, isEmpty_of_isRuleId hid]

/-- Only a list of this one name is the word for all rules; one of several names has a comma. -/
theorem Spells.trim_eq_allRules_iff (h : Spells names cs)
    (hids : ∀ name ∈ names, isRuleId name = true) :
    Text.trim cs = allRules.toList ↔ names = [allRules] := by
  cases h with
  | none hblank => simp [Text.trim_of_blank hblank, allRules]
  | last name before after hbefore hafter =>
    rw [trim_padded_of_isRuleId (hids name List.mem_cons_self) hbefore hafter, String.toList_inj]
    simp
  | @next name before after names cs hbefore hafter hnames hcs =>
    have hcomma : ',' ∈ Text.trim (before ++ (name.toList ++ after) ++ ',' :: cs) :=
      Text.mem_trim (by simp) rfl
    constructor
    · intro hall
      rw [hall] at hcomma
      exact absurd hcomma (by decide)
    · intro hone
      exact absurd (List.cons.inj hone).2 hnames

namespace Invocation.Switch

/-- A rule is off by a setting if it is one of its names, or if the word for all rules is its only
one. -/
theorem isOn_ofSetting_iff {setting rule : String} (h : Spells names setting.toList)
    (hids : ∀ name ∈ names, isRuleId name = true) :
    (ofSetting setting).isOn rule = false ↔ names = [allRules] ∨ rule ∈ names := by
  have hall : (Text.trimmed setting == "all") = true ↔ names = [allRules] := by
    rw [beq_iff_eq, ← String.toList_inj, Text.trimmed, String.toList_ofList]
    exact h.trim_eq_allRules_iff hids
  unfold ofSetting
  split
  · next hsetting => simp [isOn, hall.mp hsetting]
  · next hsetting => simp [isOn, h.entries hids, mt hall.mpr hsetting]

end Invocation.Switch

theorem namesRule_iff {rule : String} :
    namesRule names rule = true ↔ allRules ∈ names ∨ rule ∈ names := by
  simp [namesRule]

/-- A list turns off the same rules as a setting and in a build, unless it names all rules beside
others: then a setting turns off only the rules that it names. -/
theorem isOn_iff_namesRule {o : Optimization} {setting rule : String}
    (hids : ∀ name ∈ names, isRuleId name = true) (h : Spells names setting.toList)
    (ho : ∀ name, name ∈ o.disabled ↔ name ∈ names) :
    ((Invocation.Switch.ofSetting setting).isOn rule = false ↔ namesRule o.disabled rule = true) ↔
      (allRules ∈ names → names = [allRules] ∨ rule ∈ names) := by
  have hself : names = [allRules] → allRules ∈ names := by
    rintro rfl
    exact List.mem_singleton_self _
  rw [Invocation.Switch.isOn_ofSetting_iff h hids, namesRule_iff, ho, ho]
  tauto

theorem spells_paddedNames : Spells ["a", "b", "a"] " a, b ,a".toList :=
  have hblank : ∀ c ∈ [' '], Text.isBlank c = true := List.forall_mem_singleton.mpr rfl
  .next "a" [' '] [] hblank (List.forall_mem_nil _) (by decide) <|
    .next "b" [' '] [' '] hblank hblank (by decide) <|
      .last "a" [] [] (List.forall_mem_nil _) (List.forall_mem_nil _)

/-- A rule that is named with blanks around it, in a list with another name twice. -/
theorem isOn_paddedNames : (∀ name ∈ ["a", "b", "a"], isRuleId name = true) ∧
    ((((Invocation.Switch.ofSetting " a, b ,a").isOn "b" = false ↔
      namesRule ["b", "a"] "b" = true)) ↔
      (allRules ∈ ["a", "b", "a"] → ["a", "b", "a"] = [allRules] ∨ "b" ∈ ["a", "b", "a"])) := by
  have hids : ∀ name ∈ ["a", "b", "a"], isRuleId name = true := by decide
  refine ⟨hids, isOn_iff_namesRule (o := ⟨["b", "a"], [], fun _ _ _ => true⟩) hids
    spells_paddedNames ?_⟩
  intro name
  simp
  tauto

theorem spells_allBesideOthers : Spells [allRules, "a"] "all,a".toList :=
  .next allRules [] [] (List.forall_mem_nil _) (List.forall_mem_nil _) (by decide) <|
    .last "a" [] [] (List.forall_mem_nil _) (List.forall_mem_nil _)

/-- The word for all rules beside the name of one: the build turns off every rule, and the setting
only the one. -/
theorem isOn_allBesideOthers : (∀ name ∈ [allRules, "a"], isRuleId name = true) ∧
    Spells [allRules, "a"] "all,a".toList ∧
    (Invocation.Switch.ofSetting "all,a").isOn "b" = true ∧
    namesRule [allRules, "a"] "b" = true :=
  ⟨by decide, spells_allBesideOthers, by decide +kernel, by decide⟩

end Instrumentation
