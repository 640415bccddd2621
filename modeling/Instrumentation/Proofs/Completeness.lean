import Instrumentation.Proofs.Isolation
import Instrumentation.Proofs.Walks

/-!
The files of a copied package are in the working copy: each file that its module declarations lead
to, down from the directory of the package, is at its place in the copy and holds what it holds in
the package, unless it is a manifest or lies in a directory whose name is skipped.
-/
namespace Instrumentation

namespace WorkingCopy

variable {which : Place → Prop} {t₀ t : FileTree} {spot : Place} {base : Path} {g : PackageGraph}
  {plan : Plan}

/-- What a graph of packages in a file tree promises: no name has a slash in it, the workspace is
named from the root, and directories are no files and are named without `..`. -/
structure LiesIn (g : PackageGraph) (t : FileTree) : Prop where
  labels : ∀ p ∈ g.packages, '/' ∉ p.label.toList
  workspace : g.workspaceRoot.components ≠ []
  dirs : ∀ dir ∈ g.workspaceRoot :: g.packages.map Package.rootDir,
    t.fileAt? (dir.lead t.cwd) = none
  straight : ∀ p ∈ g.packages, .up ∉ p.rootDir.components

/-- A package outside the workspace that is copied has a relocation of its own. -/
theorem exists_relocation {d : Draft} {i : Nat} {p : Package}
    (hmade : Made which t₀ spot base g (copiedPackages g plan) d t) (hp : g.packages[i]? = some p)
    (hcopied : isCopied g plan i p = true) : ∃ r ∈ d.copy.relocations, r.source = p.rootDir := by
  have hmem : p ∈ copiedPackages g plan :=
    List.mem_map.mpr ⟨(p, i), List.mem_filter.mpr ⟨List.mem_zipIdx_iff_getElem?.mpr hp, hcopied⟩, rfl⟩
  refine List.mem_map.mp ?_
  rw [hmade.sources]
  exact List.mem_cons_of_mem _ (List.mem_map_of_mem hmem)

/-- A relocation covers the files of every package that is copied, and it does not lie above the
workspace or the directory of the package. -/
theorem exists_covering_of_copied {d : Draft} {i : Nat} {p : Package} {path : Path}
    (hmade : Made which t₀ spot base g (copiedPackages g plan) d t) (hp : g.packages[i]? = some p)
    (hcopied : p.rootDir.startsWith g.workspaceRoot = true ∨ isCopied g plan i p = true)
    (hpath : p.rootDir.components <+: path.components) :
    ∃ r, Relocation.covering? d.copy.relocations path = some r ∧
      (g.workspaceRoot.components.length ≤ r.depth ∨ p.rootDir.components.length ≤ r.depth) := by
  have covers (s : Relocation) (hs : s ∈ d.copy.relocations)
      (hsource : s.source.components <+: p.rootDir.components) :
      ∃ r, Relocation.covering? d.copy.relocations path = some r ∧ s.depth ≤ r.depth := by
    have hstarts : path.startsWith s.source = true := by
      rw [Path.startsWith, List.isPrefixOf_iff_prefix]
      exact hsource.trans hpath
    obtain ⟨r, hr⟩ := Relocation.exists_covering hs hstarts
    exact ⟨r, hr, (Relocation.covering?_eq_some hr).2.2 s hs hstarts⟩
  rcases hcopied with hbelow | hcopied
  · obtain ⟨r, hr, hdepth⟩ := covers _ hmade.workspace (List.isPrefixOf_iff_prefix.mp hbelow)
    exact ⟨r, hr, .inl hdepth⟩
  · obtain ⟨s, hs, hdir⟩ := exists_relocation hmade hp hcopied
    obtain ⟨r, hr, hdepth⟩ := covers s hs (hdir ▸ List.prefix_rfl)
    exact ⟨r, hr, .inr (hdir ▸ hdepth)⟩

/-- What is copied are directories. -/
theorem fileAt?_source {d : Draft} (hmade : Made which t₀ spot base g (copiedPackages g plan) d t)
    (hg : LiesIn g t₀) {r : Relocation} (hr : r ∈ d.copy.relocations) :
    t₀.fileAt? (r.source.lead t₀.cwd) = none := by
  refine hg.dirs r.source ?_
  have hsource : r.source ∈ d.copy.relocations.map Relocation.source := List.mem_map_of_mem hr
  rw [hmade.sources] at hsource
  rcases List.mem_cons.mp hsource with h | h
  · exact h ▸ List.mem_cons_self
  · obtain ⟨q, hq, he⟩ := List.mem_map.mp h
    exact List.mem_cons_of_mem _ (List.mem_map.mpr ⟨q, mem_packages_of_copied hq, he⟩)

/-- A file below the directory of a relocation, by names that are not skipped, is in the copy. -/
theorem fileAt?_copyPath {d : Draft} {done : List Package} {path : Path} {r : Relocation}
    {names : List String} {c : Content} (hmade : Made which t₀ spot base g done d t)
    (hr : Relocation.covering? d.copy.relocations path = some r)
    (hdrop : path.components.drop r.depth = names.map .name) (hne : names ≠ [])
    (hskip : ∀ s ∈ names.dropLast, s ∉ skippedDirs)
    (hwhich : which names)
    (hfile : t₀.fileAt? (path.lead t₀.cwd) = some c) (hout : ¬ spot <+: path.lead t₀.cwd) :
    ∃ target, d.copy.copyPath? path = some target ∧ t.fileAt? (target.lead t.cwd) = some c := by
  obtain ⟨hmem, hstarts, -⟩ := Relocation.covering?_eq_some hr
  obtain ⟨rest, hrest⟩ := Path.exists_strip hstarts
  have hroot : .root ∉ path.components.drop r.source.components.length := by
    rw [show path.components.drop r.source.components.length = _ from hdrop]
    simp
  have hcomponents := (Path.components_strip hrest hroot).trans hdrop
  have hlead : path.lead t₀.cwd = r.source.lead t₀.cwd ++ names := by
    obtain ⟨tail, htail⟩ := List.isPrefixOf_iff_prefix.mp hstarts
    have hnames : tail = names.map .name := by
      rw [← hdrop, ← htail, Relocation.depth, List.drop_left]
    rw [Path.lead, ← htail, hnames, List.foldl_append, Path.foldl_enter_names, Path.lead]
  obtain ⟨spotNames, -, hat⟩ := hmade.spots r hmem
  refine ⟨r.copy.join rest.text, ?_, ?_⟩
  · simp [copyPath?, Relocation.move?, hr, hrest]
  · have htarget : (r.copy.join rest.text).lead t.cwd = spot ++ spotNames ++ names := by
      rw [Path.lead_join hat.components_ne_nil (by simp [hcomponents]), hat.lead, Path.lead,
        hcomponents, Path.foldl_enter_names]
    rw [hlead] at hfile hout
    rw [htarget]
    exact hmade.copied r hmem _ names c hat hfile hout hne hskip hwhich

/-- Each file of a copied package that its module declarations lead to, down from the directory of
the package, is at its place in the copy with what it holds, unless it is a manifest or lies in a
directory of a skipped name below the directory that is copied. -/
theorem copied_of_mem_walk (hbase : base.IsAt spot) (hproper : t₀.IsProper)
    (hempty : ∀ f ∈ t₀.files, ¬ spot <+: f.1) (hg : LiesIn g t₀) {w : WorkingCopy}
    (hw : materialize t₀ base g plan = .ok (t, w)) {i : Nat} {p : Package}
    (hp : g.packages[i]? = some p)
    (hcopied : p.rootDir.startsWith g.workspaceRoot = true ∨ isCopied g plan i p = true)
    {crate : String} {root : Path} {files : List ModuleFile}
    (hwalk : ModuleFile.walk t₀ crate root = .ok files) {m : ModuleFile} (hm : m ∈ files)
    {names : List String}
    (hdown : m.file.path.components = p.rootDir.components ++ names.map .name)
    (hskip : ∀ r, Relocation.covering? w.relocations m.file.path = some r →
      ∀ s ∈ skippedDirs, .name s ∉ (m.file.path.components.drop r.depth).dropLast)
    (hmanifest : m.file.path.fileName? ≠ some Manifest.fileName) :
    ∃ target c, w.copyPath? m.file.path = some target ∧ t₀.read m.file.path = .ok c ∧
      t.fileAt? (target.lead t.cwd) = some c := by
  obtain ⟨d, rfl, hmade⟩ := (made_copyProgram hbase hproper hg.labels).of_result rfl hw
  obtain ⟨text, hread⟩ :=
    ModuleFile.exists_text_of_scan (ModuleFile.scan_of_mem_walkLevels hwalk hm)
  have hfile := FileTree.fileAt?_of_read hread
  have hmem : p ∈ g.packages := List.mem_of_getElem? hp
  obtain ⟨r, hr, hdepth⟩ :=
    exists_covering_of_copied hmade hp hcopied (hdown ▸ List.prefix_append _ _)
  have hup : .up ∉ m.file.path.components := by
    simpa [hdown] using hg.straight p hmem
  -- below the covering directory there are only names
  obtain ⟨below, hbelow⟩ : ∃ below : List String,
      m.file.path.components.drop r.depth = below.map .name := by
    by_cases hzero : r.depth = 0
    · have hworkspace := List.length_pos_iff.mpr hg.workspace
      have hnil : p.rootDir.components = [] := List.length_eq_zero_iff.mp (by omega)
      exact ⟨names, by rw [hzero, hdown, hnil]; rfl⟩
    · exact Path.exists_names_of_drop (Nat.pos_of_ne_zero hzero) fun h => hup (List.mem_of_mem_drop h)
  obtain ⟨hrel, hstarts, -⟩ := Relocation.covering?_eq_some hr
  obtain ⟨tail, htail⟩ := List.isPrefixOf_iff_prefix.mp hstarts
  have htail' : tail = below.map .name := by
    rw [← hbelow, ← htail, Relocation.depth, List.drop_left]
  have hne : below ≠ [] := by
    rintro rfl
    have hsame : m.file.path.components = r.source.components := by rw [← htail, htail']; simp
    have hnone := fileAt?_source hmade hg hrel
    rw [Path.lead, ← hsame] at hnone
    rw [Path.lead, hnone] at hfile
    cases hfile
  have hlast : below.getLast? ≠ some Manifest.fileName := by
    intro he
    refine hmanifest ?_
    have hlast : m.file.path.components.getLast? = some (.name Manifest.fileName) := by
      rw [← htail, htail', List.getLast?_append_of_ne_nil _ (by simpa using hne), List.getLast?_map, he]
      rfl
    simp [Path.fileName?, hlast]
  have hways : ∀ s ∈ below.dropLast, s ∉ skippedDirs := by
    intro s hs hskipped
    refine hskip r hr s hskipped ?_
    rw [hbelow, ← List.map_dropLast]
    exact List.mem_map_of_mem hs
  obtain ⟨target, htarget, hcopy⟩ := fileAt?_copyPath hmade hr hbelow hne hways hlast hfile
    (hempty _ (FileTree.mem_of_fileAt? hfile))
  exact ⟨target, _, htarget, hread, hcopy⟩

/-- A workspace of one package, whose root file declares a module with a directory of its own. -/
def workspaceDeclaring (name : String) : FileTree where
  files := [(["w", "Cargo.toml"], .text ""), (["w", "src", "lib.rs"], .text ("mod " ++ name ++ ";")),
    (["w", "src", name, "mod.rs"], .text "")]
  dirs := [["t"]]

def appPackage : Package where
  id := "app"
  name := "app"
  crateName := "app"
  version := { major := 0, minor := 1, patch := 0 }
  manifestPath := ⟨"/w/Cargo.toml"⟩
  libRoot := some ⟨"/w/src/lib.rs"⟩
  binRoots := []
  edition := "2021"
  source := .path
  isMember := true

def appGraph : PackageGraph :=
  { workspaceRoot := ⟨"/w"⟩, packages := [appPackage], deps := [[]], rustc := none }

/-- The paths of the files of the package. -/
def appFiles (t : FileTree) : Except Failure (List Path) :=
  (ModuleFile.walk t "app" ⟨"/w/src/lib.rs"⟩).map fun files => files.map fun m => m.file.path

theorem workspaceDeclaring_copied :
    ∃ t w target c, materialize (workspaceDeclaring "x") ⟨"/t"⟩ appGraph barePlan = .ok (t, w) ∧
      appFiles (workspaceDeclaring "x") = .ok [⟨"/w/src/lib.rs"⟩, ⟨"/w/src/x/mod.rs"⟩] ∧
      w.copyPath? ⟨"/w/src/x/mod.rs"⟩ = some target ∧
      (workspaceDeclaring "x").read ⟨"/w/src/x/mod.rs"⟩ = .ok c ∧
      t.fileAt? (target.lead t.cwd) = some c := by
  have hmade : (materialize (workspaceDeclaring "x") ⟨"/t"⟩ appGraph barePlan).toOption.any
      (fun r => decide (r.2.relocations = [⟨⟨"/w"⟩, ⟨"/t/ws"⟩⟩])) = true := by decide +kernel
  have hfiles : appFiles (workspaceDeclaring "x") =
      .ok [⟨"/w/src/lib.rs"⟩, ⟨"/w/src/x/mod.rs"⟩] := by decide +kernel
  obtain ⟨⟨t, w⟩, hw, hmade⟩ := exists_ok_of_any hmade
  have hrelocations := of_decide_eq_true hmade
  cases hwalk : ModuleFile.walk (workspaceDeclaring "x") "app" ⟨"/w/src/lib.rs"⟩ with
  | error e => simp [appFiles, hwalk, Except.map] at hfiles
  | ok files =>
    have hpaths : files.map (fun m => m.file.path) = [⟨"/w/src/lib.rs"⟩, ⟨"/w/src/x/mod.rs"⟩] := by
      simpa [appFiles, hwalk, Except.map] using hfiles
    obtain ⟨m, hm, hpath⟩ : ∃ m ∈ files, m.file.path = ⟨"/w/src/x/mod.rs"⟩ :=
      List.mem_map.mp (hpaths ▸ by simp)
    have hg : LiesIn appGraph (workspaceDeclaring "x") :=
      ⟨by decide +kernel, by decide +kernel, by decide +kernel, by decide +kernel⟩
    have hskip : ∀ r, Relocation.covering? w.relocations m.file.path = some r →
        ∀ s ∈ skippedDirs, .name s ∉ (m.file.path.components.drop r.depth).dropLast := by
      intro r hr
      have hcover : Relocation.covering? [⟨⟨"/w"⟩, ⟨"/t/ws"⟩⟩] ⟨"/w/src/x/mod.rs"⟩ =
        some ⟨⟨"/w"⟩, ⟨"/t/ws"⟩⟩ := by decide +kernel
      rw [hrelocations, hpath, hcover] at hr
      rw [← Option.some.inj hr, hpath]
      decide +kernel
    have hbase : (⟨"/t"⟩ : Path).IsAt ["t"] := by decide
    have hdown : m.file.path.components =
        appPackage.rootDir.components ++ ["src", "x", "mod.rs"].map .name := by
      rw [hpath]
      decide +kernel
    have hmanifest : m.file.path.fileName? ≠ some Manifest.fileName := by
      rw [hpath]
      decide +kernel
    have hinside : appPackage.rootDir.startsWith appGraph.workspaceRoot = true := by decide +kernel
    obtain ⟨target, c, htarget, hread, hcopy⟩ := copied_of_mem_walk hbase (by decide) (by decide)
      hg hw (i := 0) rfl (.inl hinside) hwalk hm hdown hskip hmanifest
    rw [hpath] at htarget hread
    exact ⟨t, w, target, c, hw, hfiles, htarget, hread, hcopy⟩

/-- A module whose directory has the name of a directory for build output is lost. -/
theorem target_module_lost :
    appFiles (workspaceDeclaring "target") =
      .ok [⟨"/w/src/lib.rs"⟩, ⟨"/w/src/target/mod.rs"⟩] ∧
    ∃ t w, materialize (workspaceDeclaring "target") ⟨"/t"⟩ appGraph barePlan = .ok (t, w) ∧
      w.copyPath? ⟨"/w/src/target/mod.rs"⟩ = some ⟨"/t/ws/src/target/mod.rs"⟩ ∧
      t.exists? ⟨"/t/ws/src/target/mod.rs"⟩ = false := by
  refine ⟨by decide +kernel, ?_⟩
  have hlost : (materialize (workspaceDeclaring "target") ⟨"/t"⟩ appGraph barePlan).toOption.any
      (fun r => decide (
        r.2.copyPath? ⟨"/w/src/target/mod.rs"⟩ = some ⟨"/t/ws/src/target/mod.rs"⟩ ∧
        r.1.exists? ⟨"/t/ws/src/target/mod.rs"⟩ = false)) = true := by decide +kernel
  obtain ⟨⟨t, w⟩, hw, hlost⟩ := exists_ok_of_any hlost
  exact ⟨t, w, hw, of_decide_eq_true hlost⟩

end WorkingCopy
end Instrumentation
