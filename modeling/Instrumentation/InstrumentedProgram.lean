import Instrumentation.Analysis
import Instrumentation.Optimization
import Instrumentation.Reachability

/-!
The instrumented program: the files that rules apply to, optimized, and what they need. A crate of
the first edition names no other crate without a declaration in its root file, so its root file is
among the files if any of its files is.
-/
namespace Instrumentation

structure InstrumentedProgram where
  files : List InstrumentedFile
  /-- The packages with a modified file, increasing. -/
  packages : List Nat
  /-- The hook crates of the stages that are left, by name. -/
  hookCrates : List HookCrate

namespace InstrumentedProgram

/-- The rules that are in effect in a file, with repetitions. -/
def activeRules (f : InstrumentedFile) : List Rule :=
  (f.activeDecls.flatMap InstrumentedDecl.stages).map Stage.rule

/-- The hook crates that a file names, with repetitions. -/
def hookCrateNames (f : InstrumentedFile) : List String :=
  (activeRules f).map fun r => r.hookCrate.name

/-- A list without later repetitions. -/
def firstOfEach : List String → List String
  | [] => []
  | s :: rest => s :: (firstOfEach rest).filter fun t => t != s

def isFirstEdition (g : PackageGraph) (i : Nat) : Bool :=
  match g.packages[i]? with
  | some p => p.edition == "2015"
  | none => false

/-- The packages with a modified file, increasing. -/
def modifiedPackages (files : List InstrumentedFile) : List Nat :=
  (files.filter InstrumentedFile.isModified).foldr
    (fun f ns => MatchSet.insertNumber f.package ns) []

/-- The crates that the modified files of a package name. -/
def neededCrates (files : List InstrumentedFile) (package : Nat) : List String :=
  firstOfEach (Splice.supportCrate ::
    (files.filter fun f => f.isModified && f.package == package).flatMap hookCrateNames)

/-- Makes crates known in the file at `root`, which joins the files if it is not among them. -/
def declareIn (t : FileTree) (package : Nat) (root : Path) (crates : List String)
    (files : List InstrumentedFile) : Except Failure (List InstrumentedFile) :=
  match files.findIdx? fun f => f.path.same root with
  | some i => .ok (files.modify i fun f => { f with externs := crates })
  | none => do
    return files ++ [{ package, source := ← ModuleFile.scan t root, externs := crates }]

/-- Makes crates known in the root files of all packages that need it. -/
def declareCrates (t : FileTree) (g : PackageGraph) (files : List InstrumentedFile) :
    Except Failure (List InstrumentedFile) :=
  let needs := ((modifiedPackages files).filter (isFirstEdition g)).map fun i =>
    (i, neededCrates files i)
  needs.foldlM (fun files (i, crates) =>
    match (g.packages[i]?).bind Package.libRoot with
    | none => .ok files
    | some root => declareIn t i root crates files) files

/-- The hook crates of the rules in effect, each once, by name. -/
def usedHookCrates (files : List InstrumentedFile) : List HookCrate :=
  let used := (files.flatMap activeRules).map Rule.hookCrate
  let names := Text.sortedSet (used.map HookCrate.name)
  names.filterMap fun n => used.find? fun h => h.name == n

/-- Which declarations may run, as far as the settings ask for it. -/
def liveness (t : FileTree) (config : Config) (a : Analysis) :
    Except Failure (Nat → Path → Nat → Bool) :=
  if config.pruneUnreachable && !a.found.packages.isEmpty then do
    return (← Reachability.analyze t a.graph a.found.packages).isLive
  else .ok fun _ _ _ => true

/-- Instruments a program. -/
def ofAnalysis (t : FileTree) (config : Config) (a : Analysis) :
    Except Failure InstrumentedProgram := do
  let injected ← Injection.injectAll a.found.files config.conflictPolicy
  let optimization : Optimization := {
    disabled := config.disabledRules, runtimeToggle := config.runtimeToggle
    isLive := ← liveness t config a }
  let files ← declareCrates t a.graph (injected.map optimization.file)
  return { files, packages := modifiedPackages files, hookCrates := usedHookCrates files }

end InstrumentedProgram
end Instrumentation
