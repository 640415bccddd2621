import Instrumentation.Proofs.ActiveStages
import Instrumentation.Proofs.Wiring

/-!
Inserted code names only crates that its package can link. The names come from the stages that are
left in the files of a package, the dependencies from the packages with modified files and from the
hook crates of all stages: every package whose stages name a crate has a dependency for it, and no
other package gets any.
-/
namespace Instrumentation

/-- The crates that the code inserted into a package names. -/
def InstrumentedProgram.Names (p : InstrumentedProgram) (i : Nat) (crate : String) : Prop :=
  ∃ f ∈ p.files, f.package = i ∧ ∃ d ∈ f.activeDecls, ∃ s ∈ d.stages,
    crate = Splice.supportCrate ∨ crate = s.rule.hookCrate.name

instance (p : InstrumentedProgram) (i : Nat) (crate : String) : Decidable (p.Names i crate) :=
  inferInstanceAs (Decidable (∃ f ∈ p.files, _))

namespace WorkingCopy

variable {t₀ t : FileTree} {spot : Place} {base : Path} {g : PackageGraph} {plan : Plan}
  {w : WorkingCopy} {extra : Table}

/-- The dependencies with one on a hook crate. -/
def withHook (t : FileTree) (w : WorkingCopy) (extra : Table) (h : HookCrate) :
    Except Failure Table := do
  let name ← Manifest.packageName t h.dir
  let (crate, entry) ← Manifest.dependency t (w.locate h.dir) h.name name
  return extra.set crate entry

theorem extraDependencies_eq_ok (h : extraDependencies t g plan w = .ok extra)
    (hne : plan.instrumented ≠ []) :
    ∃ dir support, Manifest.dependency t dir Splice.supportCrate supportPackage = .ok support ∧
      plan.hookCrates.foldlM (withHook t w) [support] = .ok extra := by
  unfold extraDependencies at h
  rw [if_neg (by simpa using hne)] at h
  dsimp only at h
  split at h
  all_goals
    obtain ⟨runtime, -, h⟩ := exists_of_bind_eq_ok h
    obtain ⟨support, hsupport, h⟩ := exists_of_bind_eq_ok h
    exact ⟨_, support, hsupport, h⟩

theorem has_foldlM_withHook {known : Table} {hooks : List HookCrate}
    (h : hooks.foldlM (withHook t w) known = .ok extra) :
    (∀ name, known.has name = true → extra.has name = true) ∧
      ∀ k ∈ hooks, extra.has k.name = true := by
  induction hooks generalizing known with
  | nil =>
    cases h
    exact ⟨fun _ => id, fun _ hk => by cases hk⟩
  | cons k hooks ih =>
    rw [List.foldlM_cons] at h
    obtain ⟨next, hnext, h⟩ := exists_of_bind_eq_ok h
    obtain ⟨name, -, hnext⟩ := exists_of_bind_eq_ok hnext
    obtain ⟨entry, hentry, hnext⟩ := exists_of_bind_eq_ok hnext
    obtain ⟨dir, -, hentry⟩ := exists_of_bind_eq_ok hentry
    cases hentry
    cases hnext
    obtain ⟨hkept, hadded⟩ := ih h
    refine ⟨fun name hname => hkept name ?_, fun k' hk' => ?_⟩
    · rw [Table.has_set, hname, Bool.or_true]
    · rcases List.mem_cons.mp hk' with rfl | hk'
      · refine hkept _ ?_
        rw [Table.has_set, decide_eq_true rfl, Bool.true_or]
      · exact hadded k' hk'

/-- Instrumented packages get a dependency for the support package and for each hook crate. -/
theorem has_extraDependencies (h : extraDependencies t g plan w = .ok extra)
    (hne : plan.instrumented ≠ []) :
    extra.has Splice.supportCrate = true ∧ ∀ k ∈ plan.hookCrates, extra.has k.name = true := by
  obtain ⟨_, support, hsupport, hhooks⟩ := extraDependencies_eq_ok h hne
  obtain ⟨dir, -, hsupport⟩ := exists_of_bind_eq_ok hsupport
  cases hsupport
  obtain ⟨hkept, hadded⟩ := has_foldlM_withHook hhooks
  exact ⟨hkept _ (by simp [Table.has]), hadded⟩

/-- Inserted code can be linked: the manifest of a package whose stages are in effect gets a
dependency for every crate that these name, unless it has one, and keeps those that it has. Packages
without a modified file get none, and if all rules are disabled no file at all is changed. -/
theorem crates_linkable (hbase : base.IsAt spot) (hproper : t₀.IsProper)
    (hempty : ∀ f ∈ t₀.files, ¬ spot <+: f.1) (hg : LiesIn g t₀) (hrooted : g.IsRooted)
    (hmanifests : g.HasManifests) {rules : Registry} {config : Config} {a : Analysis}
    (ha : Analysis.ofRules t₀ rules g = .ok a) {p : InstrumentedProgram}
    (hp : InstrumentedProgram.ofAnalysis t₀ config a = .ok p) {runtimeDir : Path}
    (hw : materialize t₀ base a.graph
      { instrumented := p.packages, hookCrates := p.hookCrates, runtimeDir } = .ok (t, w)) :
    (∀ i q target, g.packages[i]? = some q → IsCopied t₀ w q.manifestPath target →
      (∃ crate, p.Names i crate) → ∃ old, Manifest.at? t₀ q.manifestPath = some old ∧
        ∀ orig, old.tableAt? "dependencies" = some orig →
          ∃ new deps, DependsOn t w target q.rootDir orig (p.Names i) new deps) ∧
    (∀ i q target, g.packages[i]? = some q → IsCopied t₀ w q.manifestPath target →
      (∀ f ∈ p.files, f.package = i → f.isModified = false) →
      KeepsDependencies t₀ t w q.manifestPath target) ∧
    ((∀ r ∈ rules.rules, namesRule config.disabledRules r.id = true) →
      (∀ path target, .up ∉ path.components → IsCopied t₀ w path target →
        KeepsDependencies t₀ t w path target) ∧
      (w.writeFiles p.files).on t = (.ok (), t)) := by
  obtain ⟨rfl, -⟩ := Analysis.ofRules_eq_ok ha
  obtain ⟨hpackages, hhooks, -⟩ := InstrumentedProgram.ofAnalysis_eq_ok hp
  obtain ⟨d, extra, t₁, rfl, hfinished⟩ :=
    (finished_copyProgram hbase hproper hg hmanifests).of_result rfl hw
  refine ⟨?_, ?_, ?_⟩
  · rintro i q target hq hcopied ⟨-, f, hf, rfl, decl, hdecl, -⟩
    have hmodified : f.package ∈ p.packages := by
      rw [hpackages, InstrumentedProgram.mem_modifiedPackages]
      exact ⟨f, hf, InstrumentedProgram.isModified_of_active hdecl, rfl⟩
    obtain ⟨old, hold, hdepends⟩ := hfinished.exists_dependencies hempty hg hrooted
      hmanifests hmodified hq hcopied
    refine ⟨old, hold, fun orig horig => ?_⟩
    obtain ⟨new, deps, hwired⟩ := hdepends orig horig
    obtain ⟨hsupport, hadded⟩ :=
      has_extraDependencies hfinished.added (List.ne_nil_of_mem hmodified)
    refine ⟨new, deps, { hwired with links := ?_ }⟩
    rintro crate ⟨f', hf', -, decl', hdecl', s, hs, rfl | rfl⟩
    · exact hwired.links _ hsupport
    · obtain ⟨k, hk, hname⟩ := InstrumentedProgram.exists_usedHookCrate hf' hdecl' hs
      rw [← hname]
      exact hwired.links _ (hadded k (hhooks ▸ hk))
  · intro i q target hq hcopied hunmodified
    have hmem : q ∈ a.graph.packages := List.mem_of_getElem? hq
    have hup : .up ∉ q.manifestPath.components := by
      rw [Package.components_manifestPath (hmanifests.named q hmem)]
      simpa using hg.straight q hmem
    refine hfinished.keepsDependencies hempty hg hrooted hmanifests hup hcopied ?_
    intro j hj q' hq' hsame
    rw [hpackages, InstrumentedProgram.mem_modifiedPackages] at hj
    obtain ⟨f, hf, hmodified, rfl⟩ := hj
    rw [hunmodified f hf (hmanifests.eq_of_same hq' hq hsame)] at hmodified
    cases hmodified
  · intro hoff
    have hnone := InstrumentedProgram.isModified_of_disabled ha hp hoff
    have hfiles : p.files.filter InstrumentedFile.isModified = [] := by
      simpa [List.filter_eq_nil_iff] using hnone
    refine ⟨fun path target hup hcopied => ?_, ?_⟩
    · refine hfinished.keepsDependencies hempty hg hrooted hmanifests hup hcopied ?_
      intro j hj
      rw [hpackages, InstrumentedProgram.mem_modifiedPackages] at hj
      obtain ⟨f, hf, hmodified, -⟩ := hj
      rw [hnone f hf] at hmodified
      cases hmodified
    · rw [writeFiles, hfiles]
      rfl

/-- A workspace of two packages, one of which has a function for a rule and names the other one. -/
def pairTree : FileTree where
  files := [(["p", "Cargo.toml"], .text "dependencies.q.path=\"q\""),
    (["p", "lib.rs"], .text "fn f(){}"), (["p", "q", "Cargo.toml"], .text ""),
    (["h", "Cargo.toml"], .text "package.name=\"h\""),
    (["h", "src", "lib.rs"], .text "pub fn g() {}")]
  dirs := [["t"], ["rt"]]

/-- The first package of the pair. -/
def pairPackage : Package :=
  { Remapping.pathPackage "p" ⟨"/p/Cargo.toml"⟩ true with libRoot := some ⟨"/p/lib.rs"⟩ }

def pairGraph : PackageGraph where
  workspaceRoot := ⟨"/p"⟩
  packages := [pairPackage, Remapping.pathPackage "q" ⟨"/p/q/Cargo.toml"⟩ true]
  deps := [[1], []]
  rustc := none

def pairConfig : Config := { pruneUnreachable := false }

/-- What instrumentation makes of the pair. -/
def pairPlan (p : InstrumentedProgram) : Plan :=
  { instrumented := p.packages, hookCrates := p.hookCrates, runtimeDir := ⟨"/rt"⟩ }

/-- The first package depends on the second one by its path. -/
theorem exists_pairDependencies : ∃ old orig,
    Manifest.at? pairTree ⟨"/p/Cargo.toml"⟩ = some old ∧
    old.tableAt? "dependencies" = some orig ∧
    orig.get? "q" = some (.obj [("path", .str "q")]) := by
  have hread : (Manifest.at? pairTree ⟨"/p/Cargo.toml"⟩).any (fun old =>
      (old.tableAt? "dependencies").any fun orig => (orig.get? "q").any fun j => decide
        ((j.obj?.map fun ms => ms.map fun m => (m.1, m.2.str?)) = some [("path", some "q")])) =
      true := by decide +kernel
  obtain ⟨old, hold, hread⟩ := (Option.any_eq_true _ _).mp hread
  obtain ⟨orig, horig, hread⟩ := (Option.any_eq_true _ _).mp hread
  obtain ⟨j, hj, hread⟩ := (Option.any_eq_true _ _).mp hread
  obtain rfl := Json.eq_obj_of_texts (of_decide_eq_true hread)
  exact ⟨old, orig, hold, horig, hj⟩

/-- The pair can be instrumented and copied. -/
theorem exists_pairCopy : ∃ rules a p t w, Registry.load pairTree [plainSource] = .ok rules ∧
    Analysis.ofRules pairTree rules pairGraph = .ok a ∧
    InstrumentedProgram.ofAnalysis pairTree pairConfig a = .ok p ∧
    materialize pairTree ⟨"/t"⟩ a.graph (pairPlan p) = .ok (t, w) ∧
    p.Names 0 "h" ∧ p.Names 0 "hookweave_rt" ∧
    (∀ f ∈ p.files, f.package = 1 → f.isModified = false) ∧
    IsCopied pairTree w ⟨"/p/Cargo.toml"⟩ ⟨"/t/ws/Cargo.toml"⟩ ∧
    IsCopied pairTree w ⟨"/p/q/Cargo.toml"⟩ ⟨"/t/ws/q/Cargo.toml"⟩ ∧
    w.locate ⟨"/p/q"⟩ = ⟨"/t/ws/q"⟩ := by
  have hmade : (Registry.load pairTree [plainSource]).toOption.any (fun rules =>
      (Analysis.ofRules pairTree rules pairGraph).toOption.any fun a =>
        (InstrumentedProgram.ofAnalysis pairTree pairConfig a).toOption.any fun p =>
          (materialize pairTree ⟨"/t"⟩ a.graph (pairPlan p)).toOption.any fun r => decide (
            p.Names 0 "h" ∧ p.Names 0 "hookweave_rt" ∧
            (∀ f ∈ p.files, f.package = 1 → f.isModified = false) ∧
            IsCopied pairTree r.2 ⟨"/p/Cargo.toml"⟩ ⟨"/t/ws/Cargo.toml"⟩ ∧
            IsCopied pairTree r.2 ⟨"/p/q/Cargo.toml"⟩ ⟨"/t/ws/q/Cargo.toml"⟩ ∧
            r.2.locate ⟨"/p/q"⟩ = ⟨"/t/ws/q"⟩)) = true := by decide +kernel
  obtain ⟨rules, hrules, hmade⟩ := exists_ok_of_any hmade
  obtain ⟨a, ha, hmade⟩ := exists_ok_of_any hmade
  obtain ⟨p, hp, hmade⟩ := exists_ok_of_any hmade
  obtain ⟨⟨t, w⟩, hw, hmade⟩ := exists_ok_of_any hmade
  exact ⟨rules, a, p, t, w, hrules, ha, hp, hw, of_decide_eq_true hmade⟩

/-- The package with the function gets the dependencies that are missing, and its path to the other
package leads to the copy. -/
theorem crates_linkable_pair : ∃ rules a p t w, Registry.load pairTree [plainSource] = .ok rules ∧
    Analysis.ofRules pairTree rules pairGraph = .ok a ∧
    InstrumentedProgram.ofAnalysis pairTree pairConfig a = .ok p ∧
    materialize pairTree ⟨"/t"⟩ a.graph (pairPlan p) = .ok (t, w) ∧ p.Names 0 "h" ∧
    (∃ new deps : Table, t.fileAt? ["t", "ws", "Cargo.toml"] = some (.text (Toml.document new)) ∧
      new.get? "dependencies" = some (.obj deps) ∧ Manifest.Links deps "hookweave_rt" ∧
      Manifest.Links deps "h" ∧ deps.get? "q" = some (.obj [("path", .str "/t/ws/q")])) ∧
    KeepsDependencies pairTree t w ⟨"/p/q/Cargo.toml"⟩ ⟨"/t/ws/q/Cargo.toml"⟩ := by
  obtain ⟨rules, a, p, t, w, hrules, ha, hp, hw, hhook, hsupport, hunmodified, hcopied, hother,
    hlocate⟩ := exists_pairCopy
  have hbase : (⟨"/t"⟩ : Path).IsAt ["t"] := by decide
  have hg : LiesIn pairGraph pairTree :=
    ⟨by decide +kernel, by decide +kernel, by decide +kernel, by decide +kernel⟩
  obtain ⟨hlinks, hkeeps, -⟩ := crates_linkable hbase (by decide) (by decide) hg (by decide)
    (by decide) ha hp hw
  obtain ⟨old, hold, hdepends⟩ := hlinks 0 pairPackage _ rfl hcopied ⟨_, hhook⟩
  obtain ⟨table, orig, htable, horig, hq⟩ := exists_pairDependencies
  obtain rfl := Option.some.inj (hold.symm.trans htable)
  obtain ⟨new, deps, hwired⟩ := hdepends orig horig
  have hwritten := hwired.written
  have hlead : (⟨"/t/ws/Cargo.toml"⟩ : Path).IsAt ["t", "ws", "Cargo.toml"] := by decide
  rw [hlead.lead] at hwritten
  have hentry := hwired.kept "q" _ hq
  have hmoved (dir : Path) : Manifest.redirectEntry w.locate dir (.obj [("path", .str "q")]) =
      .obj [("path", .str (w.locate (dir.join "q").normalize).text)] := rfl
  have hpath : (pairPackage.rootDir.join "q").normalize = ⟨"/p/q"⟩ := by decide +kernel
  rw [hmoved, hpath, hlocate] at hentry
  have hkept := hkeeps 1 (Remapping.pathPackage "q" ⟨"/p/q/Cargo.toml"⟩ true) _ rfl hother
    hunmodified
  exact ⟨rules, a, p, t, w, hrules, ha, hp, hw, hhook, ⟨new, deps, hwritten, hwired.dependencies,
    hwired.links _ hsupport, hwired.links _ hhook, hentry⟩, hkept⟩

end WorkingCopy
end Instrumentation
