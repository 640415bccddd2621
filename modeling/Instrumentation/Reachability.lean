import Instrumentation.CallGraph
import Instrumentation.ModuleFile
import Instrumentation.Package.Graph

/-!
Which functions of a program can run. The members of the workspace and the instrumented packages
are read; a function is given up only if every package that could call it was read too.
-/
namespace Instrumentation

structure Reachability where
  /-- The functions that can run, by file and place. -/
  live : List (Path × Nat)
  /-- For each package, whether it and all packages that depend on it were read. -/
  prunable : List Bool
  /-- The files that were read. -/
  read : List Path

namespace Reachability

/-- The packages that are read: the members, and the instrumented ones. -/
def scanned (g : PackageGraph) (instrumented : List Nat) : List Nat :=
  (List.range g.packages.length).filter fun i => g.members.contains i || instrumented.contains i

/-- The library files of a package with their roles. -/
def libraryFiles (t : FileTree) (p : Package) (exposed : Bool) :
    Except Failure (List (SourceFile × FileRole)) :=
  match p.libRoot with
  | none => .ok []
  | some root => do
    let role := if p.isMember || exposed then .exposedLibrary else .internal
    return (← ModuleFile.walk t p.crateName root).map fun m => (m.file, role)

/-- The files of the binaries of a member with their roles. -/
def binaryFiles (t : FileTree) (p : Package) : Except Failure (List (SourceFile × FileRole)) := do
  if !p.isMember then return []
  let files ← p.binRoots.mapM fun root => do
    return (← ModuleFile.walk t p.crateName root).map fun m =>
      (m.file, if m.file.path.same root then FileRole.binaryRoot else .internal)
  return files.flatten

/-- The files that are read, with their packages and roles. -/
def files (t : FileTree) (g : PackageGraph) (instrumented : List Nat) :
    Except Failure (List (Nat × SourceFile × FileRole)) := do
  let scanned := scanned g instrumented
  let files ← scanned.mapM fun i => do
    let some p := g.packages[i]? | return []
    let exposed := !(g.dependents i).all scanned.contains
    let found := (← libraryFiles t p exposed) ++ (← binaryFiles t p)
    return found.map fun f => (i, f)
  return files.flatten

/-- The call graph of files. -/
def callGraph (files : List (Nat × SourceFile × FileRole)) : CallGraph :=
  files.foldl (fun g f => g.addFile f.1 f.2.1 f.2.2) {}

/-- Paths without those that come a second time. -/
def distinct : List Path → List Path
  | [] => []
  | p :: rest => p :: (distinct rest).filter fun q => !p.same q

def analyze (t : FileTree) (g : PackageGraph) (instrumented : List Nat) :
    Except Failure Reachability := do
  let files ← files t g instrumented
  let calls := callGraph files
  let scanned := scanned g instrumented
  return {
    live := (calls.nodes.zip calls.reachable).filterMap fun (n, alive) =>
      if alive then some (n.path, n.function.bodyOpen) else none
    prunable := (List.range g.packages.length).map fun i =>
      scanned.contains i && (g.dependents i).all scanned.contains
    read := distinct (files.map fun f => f.2.1.path) }

/-- Whether the function with a body at `bodyOpen` may run. -/
def isLive (r : Reachability) (package : Nat) (file : Path) (bodyOpen : Nat) : Bool :=
  !((r.prunable[package]?).getD false)
    || r.live.any fun l => l.2 == bodyOpen && l.1.same file

end Reachability
end Instrumentation
