import Instrumentation.Matching
import Instrumentation.Proofs.MatchSets
import Instrumentation.Proofs.Packages
import Instrumentation.Proofs.Registered
import Instrumentation.Proofs.ScannedBodies
import Instrumentation.Proofs.Walks

/-!
Matching finds all that rules select and nothing else. The search goes package by package and file
by file, and leaves out repetitions by the places of declarations; what is left are the pairs of a
rule and a declaration that fit (`find_exact`).
-/
namespace Instrumentation
namespace Matching

/-- A file of the library of a package that the program needs. -/
structure LibraryFile (t : FileTree) (g : PackageGraph) (i : Nat) (p : Package) (f : ModuleFile) :
    Prop where
  package : g.packages[i]? = some p
  needed : g.Needs i
  walked : ∃ root files, p.libRoot = some root ∧ ModuleFile.walk t p.crateName root = .ok files ∧
    f ∈ files

/-- A rule selects a declaration in a file of a package. -/
structure Selects (r : Rule) (p : Package) (f : ModuleFile) (d : Source.Declaration) : Prop where
  crate : r.targetCrate = p.crateName
  version : r.version.contains p.version
  importPath : r.importPath = Text.joined "::" (f.modulePath :: d.scope)
  function : r.function = d.name
  receiver : r.receiver.accepts d.receiver
  params : r.params.accepts (d.params.map Source.ParamSite.type)
  results : r.results.accepts d.results

/-- A match of a rule with a declaration in a file of a package. -/
structure Fits (registry : Registry) (p : Package) (f : ModuleFile) (m : Match) : Prop where
  rule : m.rule ∈ registry.rules
  decl : m.decl ∈ f.file.scan.declarations
  file : m.file = f.file
  importPath : m.importPath = Text.joined "::" (f.modulePath :: m.decl.scope)
  selects : Selects m.rule p f m.decl

/-- No file belongs to the libraries of two packages. -/
def Apart (t : FileTree) (g : PackageGraph) : Prop :=
  ∀ i j p q f f', LibraryFile t g i p f → LibraryFile t g j q f' →
    f.file.path.same f'.file.path = true → i = j

section

variable {t : FileTree} {g : PackageGraph} {registry : Registry} {i : Nat} {p : Package}
  {f : ModuleFile} {m : Match} {ms : List Match}

theorem selects_eq_true_iff {r : Rule} {d : Source.Declaration} {importPath : String} :
    r.selects importPath d = true ↔ r.importPath = importPath ∧ r.function = d.name ∧
      r.receiver.accepts d.receiver ∧ r.params.accepts (d.params.map Source.ParamSite.type) ∧
      r.results.accepts d.results := by
  simp only [Rule.selects, Bool.and_eq_true, beq_iff_eq, and_assoc]

theorem mem_applicable {n : Nat} :
    n ∈ applicable registry p ↔ ∃ r, (r ∈ registry.rules ∧ r.targetCrate = p.crateName ∧
      r.version.contains p.version) ∧ r.order = n := by
  simp only [applicable, Registry.forCrate_eq, List.mem_map, List.mem_filter, beq_iff_eq, and_assoc]

/-- A number among the applicable ones tells its rule, and the index of modules has every rule. -/
theorem mem_candidates (hdistinct : registry.Distinct) {r : Rule} {importPath : String} :
    r ∈ registry.lookup importPath ∧ r.order ∈ applicable registry p ↔
      r ∈ registry.rules ∧ r.importPath = importPath ∧ r.targetCrate = p.crateName ∧
        r.version.contains p.version := by
  rw [Registry.lookup_eq, List.mem_filter, beq_iff_eq, mem_applicable]
  constructor
  · rintro ⟨⟨hr, hpath⟩, k, ⟨hk, hcrate, hversion⟩, horder⟩
    obtain rfl := hdistinct.eq_of_order hk hr horder
    exact ⟨hr, hpath, hcrate, hversion⟩
  · rintro ⟨hr, hpath, hcrate, hversion⟩
    exact ⟨⟨hr, hpath⟩, r, ⟨hr, hcrate, hversion⟩, rfl⟩

/-- The matches in a file are those that fit. -/
theorem mem_matchFile (hdistinct : registry.Distinct) :
    m ∈ matchFile registry i (applicable registry p) f ↔ m.package = i ∧ Fits registry p f m := by
  simp only [matchFile, List.mem_flatMap, List.mem_map, List.mem_filter, Bool.and_eq_true,
    List.contains_iff_mem, selects_eq_true_iff]
  constructor
  · rintro ⟨d, hd, r, ⟨hlookup, horder, hpath, hfunction, hreceiver, hparams, hresults⟩, rfl⟩
    obtain ⟨hr, _, hcrate, hversion⟩ := (mem_candidates hdistinct).mp ⟨hlookup, horder⟩
    exact ⟨rfl, hr, hd, rfl, rfl,
      hcrate, hversion, hpath, hfunction, hreceiver, hparams, hresults⟩
  · rintro ⟨rfl, hfits⟩
    have hs := hfits.selects
    obtain ⟨hlookup, horder⟩ :=
      (mem_candidates hdistinct).mpr ⟨hfits.rule, hs.importPath, hs.crate, hs.version⟩
    refine ⟨m.decl, hfits.decl, m.rule, ⟨hlookup, horder, hs.importPath, hs.function, hs.receiver,
      hs.params, hs.results⟩, ?_⟩
    rw [ModuleFile.importPath, ← hfits.importPath, ← hfits.file]

/-- A package is passed over if no rule applies to it or it has no library, and else its files are
walked. -/
theorem cases_of_matchPackage (h : matchPackage t registry i p = .ok ms) :
    ((applicable registry p = [] ∨ p.libRoot = none) ∧ ms = []) ∨
    ∃ root files, p.libRoot = some root ∧ ModuleFile.walk t p.crateName root = .ok files ∧
      ms = files.flatMap (matchFile registry i (applicable registry p)) := by
  simp only [matchPackage] at h
  split at h
  · next hempty =>
    cases h
    exact .inl ⟨.inl (List.isEmpty_iff.mp hempty), rfl⟩
  · split at h
    · next hroot =>
      cases h
      exact .inl ⟨.inr hroot, rfl⟩
    · next root hroot =>
      obtain ⟨files, hfiles, h⟩ := exists_of_bind_eq_ok h
      cases h
      exact .inr ⟨root, files, hroot, hfiles, rfl⟩

/-- The matches in a package are those in the files of its library. -/
theorem mem_matchPackage (hdistinct : registry.Distinct)
    (h : matchPackage t registry i p = .ok ms) :
    m ∈ ms ↔ m.package = i ∧ ∃ root files f, p.libRoot = some root ∧
      ModuleFile.walk t p.crateName root = .ok files ∧ f ∈ files ∧ Fits registry p f m := by
  rcases cases_of_matchPackage h with ⟨hpassed, rfl⟩ | ⟨root, files, hroot, hfiles, rfl⟩
  · constructor
    · intro hm
      cases hm
    · rintro ⟨_, root, _, _, hroot, _, _, hfits⟩
      rcases hpassed with hnone | hnone
      · have horder : m.rule.order ∈ applicable registry p := mem_applicable.mpr
          ⟨m.rule, ⟨hfits.rule, hfits.selects.crate, hfits.selects.version⟩, rfl⟩
        rw [hnone] at horder
        cases horder
      · rw [hnone] at hroot
        cases hroot
  · simp only [List.mem_flatMap, mem_matchFile hdistinct]
    constructor
    · rintro ⟨f, hf, hpackage, hfits⟩
      exact ⟨hpackage, root, files, f, hroot, hfiles, hf, hfits⟩
    · rintro ⟨hpackage, root', files', f, hroot', hfiles', hf, hfits⟩
      cases hroot.symm.trans hroot'
      cases hfiles.symm.trans hfiles'
      exact ⟨f, hf, hpackage, hfits⟩

/-- The packages that are looked at are those that the program needs. -/
theorem mem_needed {flag : Bool} :
    ((p, i), flag) ∈ (g.packages.zipIdx.zip g.reachable).filter (fun p => p.2) ↔
      flag = true ∧ g.packages[i]? = some p ∧ g.Needs i := by
  rw [List.mem_filter, List.mem_iff_getElem?]
  constructor
  · rintro ⟨⟨k, hk⟩, rfl⟩
    obtain ⟨hpackage, hflag⟩ := List.getElem?_zip_eq_some.mp hk
    rw [List.getElem?_zipIdx, Option.map_eq_some_iff] at hpackage
    obtain ⟨p', hp', heq⟩ := hpackage
    simp only [Nat.zero_add, Prod.mk.injEq] at heq
    obtain ⟨rfl, rfl⟩ := heq
    exact ⟨rfl, hp', PackageGraph.reachable_eq_true_iff.mp hflag⟩
  · rintro ⟨rfl, hpackage, hneeds⟩
    refine ⟨⟨i, List.getElem?_zip_eq_some.mpr ⟨?_, PackageGraph.reachable_eq_true_iff.mpr hneeds⟩⟩,
      rfl⟩
    rw [List.getElem?_zipIdx, hpackage]
    simp

/-- Before repetitions are left out, the matches are those that fit. -/
theorem mem_flatten (hdistinct : registry.Distinct) {found : List (List Match)}
    (h : ((g.packages.zipIdx.zip g.reachable).filter fun p => p.2).mapM
      (fun ((p, i), _) => matchPackage t registry i p) = .ok found) :
    m ∈ found.flatten ↔ ∃ p f, LibraryFile t g m.package p f ∧ Fits registry p f m := by
  rw [List.mem_flatten]
  constructor
  · rintro ⟨ms, hms, hm⟩
    obtain ⟨⟨⟨p, i⟩, flag⟩, hp, hpackage⟩ := exists_of_mem_mapM h hms
    obtain ⟨_, hget, hneeds⟩ := mem_needed.mp hp
    obtain ⟨rfl, root, files, f, hroot, hfiles, hf, hfits⟩ :=
      (mem_matchPackage hdistinct hpackage).mp hm
    exact ⟨p, f, ⟨hget, hneeds, root, files, hroot, hfiles, hf⟩, hfits⟩
  · rintro ⟨p, f, ⟨hget, hneeds, root, files, hroot, hfiles, hf⟩, hfits⟩
    obtain ⟨ms, hms, hpackage⟩ := exists_of_mapM h (mem_needed.mpr ⟨rfl, hget, hneeds⟩)
    exact ⟨ms, hms, (mem_matchPackage hdistinct hpackage).mpr
      ⟨rfl, root, files, f, hroot, hfiles, hf, hfits⟩⟩

theorem rule_of_mem_matchFile {orders : List Nat} (hm : m ∈ matchFile registry i orders f) :
    m.rule ∈ registry.rules := by
  obtain ⟨d, -, hm⟩ := List.mem_flatMap.mp hm
  obtain ⟨r, hr, rfl⟩ := List.mem_map.mp hm
  have hlookup := (List.mem_filter.mp hr).1
  rw [Registry.lookup_eq] at hlookup
  exact (List.mem_filter.mp hlookup).1

/-- The rules of matches are in the registry, however its rules are numbered. -/
theorem rule_of_mem_find {s : MatchSet} (h : find t g registry = .ok s) (hm : m ∈ s.toList) :
    m.rule ∈ registry.rules := by
  obtain ⟨found, hfound, h⟩ := exists_of_bind_eq_ok h
  cases h
  obtain ⟨ms, hms, hm⟩ := List.mem_flatten.mp (MatchSet.mem_of_mem_ofList hm)
  obtain ⟨⟨⟨p, i⟩, _⟩, -, hpackage⟩ := exists_of_mem_mapM hfound hms
  rcases cases_of_matchPackage hpackage with ⟨-, rfl⟩ | ⟨root, files, -, -, rfl⟩
  · cases hm
  · obtain ⟨f, -, hm⟩ := List.mem_flatMap.mp hm
    exact rule_of_mem_matchFile hm

/-- Declarations of a file at one place are one declaration. -/
theorem LibraryFile.decl_eq (h : LibraryFile t g i p f) {a b : Source.Declaration}
    (ha : a ∈ f.file.scan.declarations) (hb : b ∈ f.file.scan.declarations)
    (hopen : a.bodyOpen = b.bodyOpen) : a = b := by
  obtain ⟨_, _, _, hwalk, hf⟩ := h.walked
  obtain ⟨text, htext⟩ :=
    ModuleFile.exists_read_of_scan (ModuleFile.scan_of_mem_walkLevels hwalk hf)
  have hplaces : (f.file.scan.declarations.map Source.Declaration.bodyOpen).Nodup :=
    List.pairwise_map.mpr ((Source.Scan.increasing_of_read htext).imp Nat.ne_of_lt)
  exact List.inj_on_of_nodup_map hplaces ha hb hopen

/-- Matches that fit and cannot be told apart are one match. -/
theorem Fits.eq_of_cmp (hdistinct : registry.Distinct) (hapart : Apart t g) {k : Match}
    {q : Package} {f' : ModuleFile} (hf : LibraryFile t g m.package p f)
    (hm : Fits registry p f m) (hf' : LibraryFile t g k.package q f') (hk : Fits registry q f' k)
    (hcmp : k.cmp m = .eq) : k = m := by
  obtain ⟨hpath, hopen, horder⟩ := Match.cmp_eq_iff.mp hcmp
  rw [hk.file, hm.file] at hpath
  have hpackage := hapart _ _ _ _ _ _ hf' hf hpath
  obtain rfl : q = p := by
    have hp := hf'.package
    rw [hpackage, hf.package] at hp
    exact (Option.some.inj hp).symm
  obtain ⟨root, files, hroot, hwalk, hmem⟩ := hf.walked
  obtain ⟨root', files', hroot', hwalk', hmem'⟩ := hf'.walked
  cases hroot.symm.trans hroot'
  cases hwalk.symm.trans hwalk'
  obtain rfl := ModuleFile.eq_of_mem_walk hwalk hmem' hmem hpath
  have hdecl := hf.decl_eq hk.decl hm.decl hopen
  have hrule := hdistinct.eq_of_order hk.rule hm.rule horder
  have hfile := hk.file.trans hm.file.symm
  have himport := hk.importPath
  rw [hdecl, ← hm.importPath] at himport
  cases k
  cases m
  simp_all

end

/-- Matching is exact: the matches are the pairs of a rule and a declaration in a library file of a
needed package that the rule selects, each pair once, in the order of files, places and rules. -/
theorem find_exact {t : FileTree} {g : PackageGraph} {registry : Registry} {s : MatchSet}
    (hloaded : registry.Loaded) (hapart : Apart t g) (h : find t g registry = .ok s) :
    (∀ m, m ∈ s.toList ↔ ∃ p f, LibraryFile t g m.package p f ∧ Fits registry p f m) ∧
      (s.toList.Pairwise fun a b => ¬ a.SamePair b) ∧ s.toList.Pairwise Match.Before := by
  obtain ⟨found, hfound, h⟩ := exists_of_bind_eq_ok h
  cases h
  have hbefore : (MatchSet.ofList found.flatten).toList.Pairwise Match.Before :=
    MatchSet.before _
  refine ⟨?_, hbefore.imp Match.Before.not_samePair, hbefore⟩
  intro m
  constructor
  · intro hm
    exact (mem_flatten hloaded.distinct hfound).mp (MatchSet.mem_of_mem_ofList hm)
  · intro hm
    obtain ⟨p, f, hf, hfits⟩ := hm
    obtain ⟨k, hk, hcmp⟩ :=
      MatchSet.exists_ofList ((mem_flatten hloaded.distinct hfound).mpr ⟨p, f, hf, hfits⟩)
    obtain ⟨q, f', hf', hfits'⟩ :=
      (mem_flatten hloaded.distinct hfound).mp (MatchSet.mem_of_mem_ofList hk)
    exact Fits.eq_of_cmp hloaded.distinct hapart hf hfits hf' hfits' hcmp ▸ hk

/-- The files of a package's library. -/
def libraryPaths (t : FileTree) (p : Package) : List Path :=
  (p.libRoot.map fun root => ((ModuleFile.walk t p.crateName root).toOption.getD []).map
    fun f => f.file.path).getD []

theorem apart_of_libraryPaths {t : FileTree} {g : PackageGraph}
    (h : ∀ a ∈ g.packages.zipIdx, ∀ b ∈ g.packages.zipIdx, a.2 = b.2 ∨
      ∀ x ∈ libraryPaths t a.1, ∀ y ∈ libraryPaths t b.1, x.same y = false) : Apart t g := by
  have hpaths {i : Nat} {p : Package} {f : ModuleFile} (hf : LibraryFile t g i p f) :
      (p, i) ∈ g.packages.zipIdx ∧ f.file.path ∈ libraryPaths t p := by
    obtain ⟨root, files, hroot, hfiles, hmem⟩ := hf.walked
    refine ⟨List.mem_zipIdx_iff_getElem?.mpr hf.package, ?_⟩
    rw [libraryPaths, hroot, Option.map_some, hfiles]
    exact List.mem_map_of_mem hmem
  intro i j p q f f' hf hf' hsame
  obtain ⟨hp, hpath⟩ := hpaths hf
  obtain ⟨hq, hpath'⟩ := hpaths hf'
  rcases h _ hp _ hq with heq | hapart
  · exact heq
  · rw [hapart _ hpath _ hpath'] at hsame
    cases hsame

/-- The program needs `p` and with it one of two versions of `q`. -/
def graphPQ : PackageGraph where
  workspaceRoot := ⟨"/p"⟩
  packages := [crateP, { crateP with
    id := "q", name := "q", crateName := "q", libRoot := some ⟨"/q.rs"⟩, isMember := false },
    { crateP with
      id := "q-old", name := "q", crateName := "q", version := { major := 0, minor := 9, patch := 0 }
      libRoot := some ⟨"/old/q.rs"⟩, isMember := false }]
  deps := [[1], [], []]
  rustc := none

/-- What is left of the rules when one of them is not looked for. -/
def keptRules : Registry := (Registry.ofRules libraryRules [⟨"h", ⟨"/h"⟩⟩]).retain fun r => r.id != "b"

/-- The version of `q` that nothing needs has a function like those that are found. -/
theorem find_exact_libraryTree :
    (∃ x, Registry.load libraryTree [plainSource, librarySource] = .ok x ∧
      keptRules = x.retain fun r => r.id != "b") ∧
    Apart libraryTree graphPQ ∧ ∃ s, find libraryTree graphPQ keptRules = .ok s ∧
    s.toList.map (fun m => (m.rule.id, m.package, m.importPath, m.decl.name)) =
      [("a", 0, "p", "f"), ("d", 0, "p", "f"), ("c", 1, "q", "f")] ∧
    (∀ m, m ∈ s.toList ↔
      ∃ p f, LibraryFile libraryTree graphPQ m.package p f ∧ Fits keptRules p f m) ∧
    s.toList.Pairwise Match.Before := by
  have hfound : (find libraryTree graphPQ keptRules).toOption.any (fun s =>
      s.toList.map (fun m => (m.rule.id, m.package, m.importPath, m.decl.name)) ==
        [("a", 0, "p", "f"), ("d", 0, "p", "f"), ("c", 1, "q", "f")]) = true := by
    decide +kernel
  have hapart : Apart libraryTree graphPQ := apart_of_libraryPaths (by decide +kernel)
  obtain ⟨s, hs, hfound⟩ := exists_ok_of_any hfound
  obtain ⟨hexact, _, hbefore⟩ :=
    find_exact (.retain _ (.load Registry.load_libraryRules)) hapart hs
  exact ⟨⟨_, Registry.load_libraryRules, rfl⟩, hapart, s, hs, beq_iff_eq.mp hfound, hexact,
    hbefore⟩

end Matching
end Instrumentation
