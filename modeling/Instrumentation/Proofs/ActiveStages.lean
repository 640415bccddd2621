import Instrumentation.InstrumentedProgram
import Instrumentation.Proofs.Grouping
import Instrumentation.Proofs.Matching
import Instrumentation.Proofs.Optimization

/-!
Where stages come from, and what is told of them. The rules of stages are rules of matches, these
are rules of the registry, and optimization leaves those that are not disabled. The packages and the
hook crates of an instrumented program are those of the stages that are left in its files.
-/
namespace Instrumentation

/-- The rules of a file's declarations are those of matches. -/
theorem MatchSet.exists_match {s : MatchSet} {f : FileMatches} {d : DeclMatches} {r : Rule}
    (hf : f ∈ s.files) (hd : d ∈ f.decls) (hr : r ∈ d.rules) : ∃ m ∈ s.toList, m.rule = r := by
  obtain ⟨run, hrun, hf⟩ := List.mem_filterMap.mp hf
  obtain ⟨_, -, rfl⟩ := Option.map_eq_some_iff.mp hf
  obtain ⟨part, hpart, hd⟩ := List.mem_filterMap.mp hd
  obtain ⟨_, -, rfl⟩ := Option.map_eq_some_iff.mp hd
  obtain ⟨m, hm, rfl⟩ := List.mem_map.mp hr
  exact ⟨m, mem_of_mem_run hrun (mem_of_mem_run hpart hm), rfl⟩

namespace Injection

theorem rule_of_mem_injectRules {file : Path} {m : DeclMatches} {accepted : List Accepted}
    {rules : List Rule} {s : Stage} (h : s ∈ (injectRules file m accepted rules).1) :
    s.rule ∈ rules := by
  induction rules generalizing accepted with
  | nil => cases h
  | cons r rest ih =>
    unfold injectRules at h
    split at h
    · exact List.mem_cons_of_mem r (ih h)
    · rcases List.mem_cons.mp h with rfl | h
      · exact List.mem_cons_self
      · exact List.mem_cons_of_mem r (ih h)

theorem exists_decl_of_mem_injectFile {m : FileMatches} {d : InstrumentedDecl} {s : Stage}
    (hd : d ∈ (injectFile m).1.decls) (hs : s ∈ d.stages) : ∃ k ∈ m.decls, s.rule ∈ k.rules := by
  have hd := mem_sortedBy.mp hd
  rw [List.map_map] at hd
  obtain ⟨k, hk, rfl⟩ := List.mem_map.mp hd
  exact ⟨k, hk, rule_of_mem_injectRules hs⟩

theorem injectAll_eq_ok {files : List FileMatches} {policy : ConflictPolicy}
    {injected : List InstrumentedFile} (h : injectAll files policy = .ok injected) :
    injected = files.map fun m => (injectFile m).1 := by
  unfold injectAll at h
  dsimp only at h
  split at h
  · cases h
  · cases h
    rw [List.map_map]
    rfl

end Injection

/-- The matches of an analysis are made with rules that it was given. -/
theorem Analysis.ofRules_eq_ok {t : FileTree} {rules : Registry} {g : PackageGraph} {a : Analysis}
    (h : ofRules t rules g = .ok a) :
    a.graph = g ∧ ∀ m ∈ a.found.toList, m.rule ∈ rules.rules := by
  obtain ⟨registry, hregistry, h⟩ := exists_of_bind_eq_ok h
  obtain ⟨found, hfound, h⟩ := exists_of_bind_eq_ok h
  cases h
  refine ⟨rfl, fun m hm => ?_⟩
  have hrule := Matching.rule_of_mem_find hfound hm
  obtain ⟨selected, -, hselected⟩ := exists_of_bind_eq_ok hregistry
  split at hselected
  · cases hselected
  · cases hselected
    exact (List.mem_filter.mp hrule).1

namespace InstrumentedProgram

variable {t : FileTree} {g : PackageGraph} {config : Config} {a : Analysis}
  {p : InstrumentedProgram} {files : List InstrumentedFile} {f : InstrumentedFile}
  {d : InstrumentedDecl} {s : Stage} {i : Nat}

theorem mem_insertNumber {n m : Nat} {ns : List Nat} :
    m ∈ MatchSet.insertNumber n ns ↔ m = n ∨ m ∈ ns := by
  induction ns with
  | nil => simp [MatchSet.insertNumber]
  | cons k ns ih =>
    unfold MatchSet.insertNumber
    split
    · simp
    · split
      · next heq => simp [heq]
      · rw [List.mem_cons, ih, List.mem_cons]
        exact or_left_comm

/-- The packages of a program are those of its modified files. -/
theorem mem_modifiedPackages :
    i ∈ modifiedPackages files ↔ ∃ f ∈ files, f.isModified = true ∧ f.package = i := by
  have hfold (kept : List InstrumentedFile) :
      i ∈ kept.foldr (fun f ns => MatchSet.insertNumber f.package ns) [] ↔
        ∃ f ∈ kept, f.package = i := by
    induction kept with
    | nil => simp
    | cons f kept ih => simp [mem_insertNumber, ih, eq_comm]
  rw [modifiedPackages, hfold]
  simp only [List.mem_filter, and_assoc]

/-- The hook crates of a program have the names that its stages tell. -/
theorem exists_usedHookCrate (hf : f ∈ files) (hd : d ∈ f.activeDecls) (hs : s ∈ d.stages) :
    ∃ h ∈ usedHookCrates files, h.name = s.rule.hookCrate.name := by
  have hrule : s.rule ∈ files.flatMap activeRules :=
    List.mem_flatMap.mpr ⟨f, hf, List.mem_map_of_mem (List.mem_flatMap.mpr ⟨d, hd, hs⟩)⟩
  have hused : s.rule.hookCrate ∈ (files.flatMap activeRules).map Rule.hookCrate :=
    List.mem_map_of_mem hrule
  obtain ⟨h, hfind⟩ : ∃ h, ((files.flatMap activeRules).map Rule.hookCrate).find?
      (fun h => h.name == s.rule.hookCrate.name) = some h := by
    rw [← Option.isSome_iff_exists, List.find?_isSome]
    exact ⟨_, hused, beq_self_eq_true _⟩
  refine ⟨h, List.mem_filterMap.mpr ⟨s.rule.hookCrate.name, ?_, hfind⟩, ?_⟩
  · exact Text.mem_sortedSet.mpr (List.mem_map_of_mem hused)
  · simpa using List.find?_some hfind

theorem isModified_of_active (hd : d ∈ f.activeDecls) : f.isModified = true := by
  rw [InstrumentedFile.isModified, Bool.or_eq_true]
  right
  simpa using List.ne_nil_of_mem hd

/-- The stages of a program come from its matches, those of disabled rules left out. -/
theorem ofAnalysis_eq_ok (h : ofAnalysis t config a = .ok p) :
    p.packages = modifiedPackages p.files ∧ p.hookCrates = usedHookCrates p.files ∧
    ∃ o : Optimization, o.disabled = config.disabledRules ∧ declareCrates t a.graph
      (a.found.files.map fun m => o.file (Injection.injectFile m).1) = .ok p.files := by
  obtain ⟨injected, hinjected, h⟩ := exists_of_bind_eq_ok h
  obtain ⟨isLive, -, h⟩ := exists_of_bind_eq_ok h
  obtain ⟨files, hfiles, h⟩ := exists_of_bind_eq_ok h
  cases h
  rw [Injection.injectAll_eq_ok hinjected, List.map_map] at hfiles
  exact ⟨rfl, rfl, _, rfl, hfiles⟩

/-- Where nothing is modified, no crate has to be made known. -/
theorem declareCrates_unmodified (h : ∀ f ∈ files, f.isModified = false) :
    declareCrates t g files = .ok files := by
  have hnone : modifiedPackages files = [] := by
    rw [modifiedPackages, List.filter_eq_nil_iff.mpr fun f hf => by simp [h f hf]]
    rfl
  rw [declareCrates, hnone]
  rfl

/-- No stage of a disabled rule is left. -/
theorem isModified_file {o : Optimization} {m : FileMatches}
    (h : ∀ k ∈ m.decls, ∀ r ∈ k.rules, namesRule o.disabled r.id = true) :
    (o.file (Injection.injectFile m).1).isModified = false := by
  have hactive : (o.file (Injection.injectFile m).1).activeDecls = [] := by
    refine List.filter_eq_nil_iff.mpr fun d hd => ?_
    obtain ⟨d₀, hd₀, rfl⟩ := List.mem_map.mp hd
    have hrules : (o.stages d₀.stages).map Stage.rule = [] := by
      rw [Optimization.map_rule_stages, List.filter_eq_nil_iff]
      intro r hr
      obtain ⟨s, hs, rfl⟩ := List.mem_map.mp hr
      obtain ⟨k, hk, hrule⟩ := Injection.exists_decl_of_mem_injectFile hd₀ hs
      simp [h k hk _ hrule]
    simp [InstrumentedDecl.isActive, Optimization.decl, List.map_eq_nil_iff.mp hrules]
  rw [InstrumentedFile.isModified, hactive]
  rfl

/-- A program whose rules are all disabled is not instrumented. -/
theorem isModified_of_disabled {rules : Registry} (ha : Analysis.ofRules t rules g = .ok a)
    (hp : ofAnalysis t config a = .ok p)
    (hoff : ∀ r ∈ rules.rules, namesRule config.disabledRules r.id = true) :
    ∀ f ∈ p.files, f.isModified = false := by
  obtain ⟨-, -, o, hdisabled, hfiles⟩ := ofAnalysis_eq_ok hp
  obtain ⟨-, hrules⟩ := Analysis.ofRules_eq_ok ha
  have hnone : ∀ f ∈ a.found.files.map fun m => o.file (Injection.injectFile m).1,
      f.isModified = false := by
    intro f hf
    obtain ⟨m, hm, rfl⟩ := List.mem_map.mp hf
    refine isModified_file fun k hk r hr => ?_
    obtain ⟨found, hfound, rfl⟩ := MatchSet.exists_match hm hk hr
    rw [hdisabled]
    exact hoff _ (hrules found hfound)
  rw [declareCrates_unmodified hnone, Except.ok.injEq] at hfiles
  exact hfiles ▸ hnone

end InstrumentedProgram
end Instrumentation
