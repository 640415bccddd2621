import Instrumentation.Closure
import Instrumentation.Failure
import Instrumentation.Package.Basic

/-!
The packages of a program and which of them depends on which.
-/
namespace Instrumentation

structure PackageGraph where
  workspaceRoot : Path
  packages : List Package
  /-- The dependencies of each package, by number. -/
  deps : List (List Nat)
  /-- The version of the compiler, if it is known. -/
  rustc : Option Version

namespace PackageGraph

/-- The number of the last package of that id. -/
def indexOf? (packages : List Package) (id : String) : Option Nat :=
  ((packages.zipIdx.filter fun p => p.1.id == id).getLast?).map Prod.snd

/-- One more dependency, unless it is there already. -/
def addDep (deps : List (List Nat)) (start target : Nat) : List (List Nat) :=
  deps.modify start fun ds => if ds.contains target then ds else ds ++ [target]

/-- The dependencies that edges between package ids give. -/
def depsOf (packages : List Package) : List (List Nat) → List (String × String) →
    Except Failure (List (List Nat))
  | deps, [] => .ok deps
  | deps, (start, target) :: rest =>
    match indexOf? packages start with
    | none => .error (.unresolved start ⟨"dependency edge from a package missing in the graph", false⟩)
    | some f => match indexOf? packages target with
      | none =>
        let label := ((packages[f]?).map Package.label).getD ""
        .error (.unresolved target ⟨"required by " ++ label ++ " but missing in the graph", false⟩)
      | some t => depsOf packages (addDep deps f t) rest

/-- The graph of packages with edges between their ids; every edge joins two packages. -/
def ofEdges (workspaceRoot : Path) (packages : List Package) (edges : List (String × String))
    (rustc : Option Version) : Except Failure PackageGraph := do
  let deps ← depsOf packages (packages.map fun _ => []) edges
  return { workspaceRoot, packages, deps, rustc }

/-- The numbers of the packages that pass a test. -/
def numbersWhere (g : PackageGraph) (test : Package → Bool) : List Nat :=
  (g.packages.zipIdx.filter fun p => test p.1).map Prod.snd

/-- The packages whose library has that name; there may be several versions. -/
def byCrate (g : PackageGraph) (name : String) : List Nat := g.numbersWhere (·.crateName == name)

def byName (g : PackageGraph) (name : String) : List Nat :=
  g.numbersWhere fun p => samePackageName p.name name

def members (g : PackageGraph) : List Nat := g.numbersWhere Package.isMember

/-- The packages that depend on one directly. -/
def dependents (g : PackageGraph) (i : Nat) : List Nat :=
  (g.deps.zipIdx.filter fun d => d.1.contains i).map Prod.snd

def depsAt (g : PackageGraph) (i : Nat) : List Nat := (g.deps[i]?).getD []

/-- For each package, whether a member of the workspace needs it. -/
def reachable (g : PackageGraph) : List Bool :=
  reachableFlags g.packages.length g.depsAt g.members

end PackageGraph
end Instrumentation
