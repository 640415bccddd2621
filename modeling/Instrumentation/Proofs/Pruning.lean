import Instrumentation.Proofs.CallGraph
import Instrumentation.Proofs.Outcome
import Instrumentation.Reachability

/-!
Pruning is sound with respect to mentions: a function is given up only if nothing that was read
can call it by name, and everything that could call it was read.
-/
namespace Instrumentation
namespace Reachability

variable {t : FileTree} {g : PackageGraph} {instrumented : List Nat}

/-- Whether a package that depends on another was left unread. -/
def isExposed (g : PackageGraph) (instrumented : List Nat) (i : Nat) : Bool :=
  !(g.dependents i).all (scanned g instrumented).contains

/-- The library files of every package that is read are read, each in the role of its package. -/
theorem mem_files {fs : List CallGraph.Added} (hfs : files t g instrumented = .ok fs) {i : Nat}
    (hi : i ∈ scanned g instrumented) {p : Package} (hp : g.packages[i]? = some p) {root : Path}
    (hroot : p.libRoot = some root) {ms : List ModuleFile}
    (hms : ModuleFile.walk t p.crateName root = .ok ms) {m : ModuleFile} (hm : m ∈ ms) :
    (i, m.file, if p.isMember || isExposed g instrumented i then FileRole.exposedLibrary
      else .internal) ∈ fs := by
  simp only [files, bind, Except.bind, pure, Except.pure] at hfs
  split at hfs
  · simp at hfs
  · next found hfound =>
    simp only [Except.ok.injEq] at hfs
    subst hfs
    obtain ⟨ys, hys, he⟩ := exists_of_mapM hfound hi
    refine List.mem_flatten.mpr ⟨ys, hys, ?_⟩
    simp only [hp, libraryFiles, hroot, hms, bind, Except.bind, pure, Except.pure] at he
    split at he
    · simp at he
    · simp only [Except.ok.injEq] at he
      subst he
      exact List.mem_map.mpr ⟨_, List.mem_append_left _ (List.mem_map.mpr ⟨m, hm, rfl⟩), rfl⟩

theorem analyze_eq_ok {r : Reachability} (h : analyze t g instrumented = .ok r) :
    ∃ fs, files t g instrumented = .ok fs ∧
      r.live = ((CallGraph.addAll {} fs).nodes.zip (CallGraph.addAll {} fs).reachable).filterMap
        (fun (n, alive) => if alive then some (n.path, n.function.bodyOpen) else none) ∧
      r.prunable = (List.range g.packages.length).map fun i =>
        (scanned g instrumented).contains i && !isExposed g instrumented i := by
  cases hfs : files t g instrumented with
  | error e => simp [analyze, hfs, bind, Except.bind] at h
  | ok fs =>
    simp only [analyze, hfs, bind, Except.bind, pure, Except.pure, Except.ok.injEq] at h
    subst h
    exact ⟨fs, rfl, rfl, by simp [isExposed]⟩

/-- A function that can run is live. -/
theorem isLive_of_runs {r : Reachability} {calls : CallGraph}
    (hlive : r.live = (calls.nodes.zip calls.reachable).filterMap
      (fun (n, alive) => if alive then some (n.path, n.function.bodyOpen) else none))
    {i : Nat} {n : CallNode} (hn : calls.nodes[i]? = some n) (hr : calls.Runs i) (p : Nat) :
    r.isLive p n.path n.function.bodyOpen = true := by
  have hmem : (n.path, n.function.bodyOpen) ∈ r.live := by
    rw [hlive]
    refine List.mem_filterMap.mpr ⟨(n, true), List.mem_iff_getElem?.mpr ⟨i, ?_⟩, by simp⟩
    exact List.getElem?_zip_eq_some.mpr ⟨hn, hr⟩
  have hany : (r.live.any fun l => l.2 == n.function.bodyOpen && l.1.same n.path) = true :=
    List.any_eq_true.mpr ⟨_, hmem, by simp [Path.same]⟩
  simp [isLive, hany]

/-- A package loses functions only if it and all that depend on it were read. -/
theorem scanned_of_not_isLive {r : Reachability}
    (hprun : r.prunable = (List.range g.packages.length).map fun i =>
      (scanned g instrumented).contains i && !isExposed g instrumented i)
    {p : Nat} {file : Path} {bodyOpen : Nat} (h : r.isLive p file bodyOpen = false) :
    p ∈ scanned g instrumented ∧ ∀ q ∈ g.dependents p, q ∈ scanned g instrumented := by
  have hp : (r.prunable[p]?).getD false = true := by
    simp only [isLive, Bool.or_eq_false_iff, Bool.not_eq_false'] at h
    exact h.1
  rw [hprun, List.getElem?_map] at hp
  by_cases hlt : p < g.packages.length
  · simp only [List.getElem?_range hlt, Option.map_some, Option.getD_some, Bool.and_eq_true,
      List.contains_iff_mem, isExposed, Bool.not_not, List.all_eq_true] at hp
    exact hp
  · simp [hlt] at hp

/-- A function of a library file that is not live was read together with all that could call it,
is no entry point of its own, and is mentioned neither outside of functions nor by a function
that can run. -/
theorem unmentioned_of_not_isLive {r : Reachability} (hr : analyze t g instrumented = .ok r)
    {i : Nat} {p : Package} (hp : g.packages[i]? = some p) {root : Path}
    (hroot : p.libRoot = some root) {ms : List ModuleFile}
    (hms : ModuleFile.walk t p.crateName root = .ok ms) {m : ModuleFile} (hm : m ∈ ms)
    {fn : Source.FunctionSummary} (hfn : fn ∈ m.file.scan.functions)
    (hdead : r.isLive i m.file.path fn.bodyOpen = false) :
    (i ∈ scanned g instrumented ∧ ∀ q ∈ g.dependents i, q ∈ scanned g instrumented) ∧
    fn.isTest = false ∧ fn.alwaysLive = false ∧
    ¬ (fn.isPub = true ∧
      (p.isMember = true ∨ ∃ q ∈ g.dependents i, q ∉ scanned g instrumented)) ∧
    ∃ fs, files t g instrumented = .ok fs ∧
      (∀ f ∈ fs, fn.name ∉ f.2.1.scan.itemMentions) ∧
      ∀ (j : Nat) (n : CallNode), (callGraph fs).nodes[j]? = some n →
        (callGraph fs).reachable[j]? = some true → fn.name ∉ n.function.mentions := by
  obtain ⟨fs, hfs, hlive, hprun⟩ := analyze_eq_ok hr
  have hscanned := scanned_of_not_isLive hprun hdead
  have hfile := mem_files hfs hscanned.1 hp hroot hms hm
  obtain ⟨k, hk, hentry⟩ := CallGraph.exists_node hfile hfn
  have hnot : ¬ (CallGraph.addAll {} fs).Runs k := by
    intro hruns
    have := isLive_of_runs hlive hk hruns i
    simp [hdead] at this
  -- A function that is an entry point by itself would run.
  have hkind := Classical.not_not.mp fun he => hnot (CallGraph.runs_of_direct hk (hentry he))
  have htest : fn.isTest = false := by
    cases h : fn.isTest with
    | false => rfl
    | true => simp [FileRole.entryKind?, h] at hkind
  have hlives : fn.alwaysLive = false := by
    cases h : fn.alwaysLive with
    | false => rfl
    | true => simp [FileRole.entryKind?, htest, h] at hkind
  refine ⟨hscanned, htest, hlives, ?_, fs, hfs, ?_, ?_⟩
  · rintro ⟨hpub, hmember | ⟨q, hq, hun⟩⟩
    · simp [FileRole.entryKind?, htest, hlives, hmember, hpub] at hkind
    · exact hun (hscanned.2 q hq)
  · intro f hf hname
    have hroots := CallGraph.mem_rootNames_addAll (g := {}).mpr (.inr ⟨f, hf, hname⟩)
    exact hnot (CallGraph.runs_of_rootName hk hroots)
  · intro j n hn hj hname
    have hruns : (CallGraph.addAll {} fs).Runs j := hj
    exact hnot (hruns.mention hn hk hname)

/-- A program of two packages. Of the second, the functions `b` and `c` are mentioned by each
other alone. -/
def twoFiles : FileTree where
  files := [(["app.rs"], .text "pub fn run() { a() }"),
    (["lib.rs"], .text "pub fn a() {}\npub fn b() { c() }\nfn c() { b() }\n")]

def twoPackages : PackageGraph where
  workspaceRoot := ⟨"/"⟩
  packages := [package "app" true, package "lib" false]
  deps := [[1], []]
  rustc := none
where
  package (name : String) (isMember : Bool) : Package :=
    { id := name, name, crateName := name, version := ⟨0, 1, 0, [], []⟩
      manifestPath := ⟨"/Cargo.toml"⟩, libRoot := some ⟨"/" ++ name ++ ".rs"⟩, binRoots := []
      edition := "2021", source := .path, isMember }

/-- Whether a function of the second package is given up. -/
def givesUp (name : String) : Bool :=
  match analyze twoFiles twoPackages [1], ModuleFile.walk twoFiles "lib" ⟨"/lib.rs"⟩ with
  | .ok r, .ok ms => ms.any fun m => m.file.scan.functions.any fun fn =>
      fn.name == name && !r.isLive 1 m.file.path fn.bodyOpen
  | _, _ => false

theorem givesUp_b_unmentioned :
    givesUp "b" = true ∧ ∃ fs, files twoFiles twoPackages [1] = .ok fs ∧
      (∀ f ∈ fs, "b" ∉ f.2.1.scan.itemMentions) ∧
      ∀ (j : Nat) (n : CallNode), (callGraph fs).nodes[j]? = some n →
        (callGraph fs).reachable[j]? = some true → "b" ∉ n.function.mentions := by
  have hup : givesUp "b" = true := by decide +kernel
  refine ⟨hup, ?_⟩
  unfold givesUp at hup
  split at hup
  · next r ms hr hms =>
    obtain ⟨m, hm, hfns⟩ := List.any_eq_true.mp hup
    obtain ⟨fn, hfn, hb⟩ := List.any_eq_true.mp hfns
    simp only [Bool.and_eq_true, beq_iff_eq, Bool.not_eq_true'] at hb
    rw [← hb.1]
    exact (unmentioned_of_not_isLive hr (p := twoPackages.package "lib" false) rfl rfl hms hm hfn
      hb.2).2.2.2.2
  · simp at hup

end Reachability
end Instrumentation
