import Instrumentation.Package.Graph
import Instrumentation.Registry

/-!
Matching: the declarations of a program that rules select. Only packages that the program needs
are looked at, and of a package only its library.
-/
namespace Instrumentation
namespace Matching

/-- The numbers of the rules that may apply to a package: those for its library and its version. -/
def applicable (registry : Registry) (p : Package) : List Nat :=
  ((registry.forCrate p.crateName).filter fun r => r.version.contains p.version).map Rule.order

/-- The matches in one file. The rules for the module of a declaration are looked up, and those that
do not apply to the package are passed over. -/
def matchFile (registry : Registry) (package : Nat) (orders : List Nat) (m : ModuleFile) :
    List Match :=
  m.file.scan.declarations.flatMap fun d =>
    let importPath := m.importPath d.scope
    let rules := (registry.lookup importPath).filter fun r =>
      orders.contains r.order && r.selects importPath d
    rules.map fun r => ⟨r, package, importPath, m.file, d⟩

/-- The matches in one package. -/
def matchPackage (t : FileTree) (registry : Registry) (i : Nat) (p : Package) :
    Except Failure (List Match) := do
  let orders := applicable registry p
  if orders.isEmpty then return []
  match p.libRoot with
  | none => return []
  | some root =>
    return (← ModuleFile.walk t p.crateName root).flatMap (matchFile registry i orders)

/-- All matches of a program. -/
def find (t : FileTree) (g : PackageGraph) (registry : Registry) : Except Failure MatchSet := do
  let packages := (g.packages.zipIdx.zip g.reachable).filter fun p => p.2
  let found ← packages.mapM fun ((p, i), _) => matchPackage t registry i p
  return .ofList found.flatten

end Matching
end Instrumentation
