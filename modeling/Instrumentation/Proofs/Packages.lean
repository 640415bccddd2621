import Instrumentation.Package.Graph
import Instrumentation.Proofs.Closure

/-!
Packages of a program by what needs them: the members of the workspace, and whatever a needed
package depends on.
-/
namespace Instrumentation.PackageGraph

variable {g : PackageGraph} {test : Package → Bool} {i : Nat} {p : Package}

/-- A chain of dependencies leads from a member of the workspace to the package. -/
def Needs (g : PackageGraph) (i : Nat) : Prop := Reached g.packages.length g.depsAt g.members i

/-- The program has a needed package that passes a test in that version. -/
def Resolves (g : PackageGraph) (test : Package → Bool) (v : Version) : Prop :=
  ∃ i p, g.packages[i]? = some p ∧ g.Needs i ∧ test p = true ∧ p.version = v

theorem reachable_eq_true_iff : g.reachable[i]? = some true ↔ g.Needs i :=
  reachableFlags_eq_true_iff

theorem mem_numbersWhere : i ∈ g.numbersWhere test ↔ ∃ p, g.packages[i]? = some p ∧ test p := by
  simp only [numbersWhere, List.mem_map, List.mem_filter, Prod.exists, exists_eq_right,
    List.mem_zipIdx_iff_getElem?]

end Instrumentation.PackageGraph

namespace Instrumentation

/-- A program of one package. -/
def crateP : Package where
  id := "p"
  name := "p"
  crateName := "p"
  version := { major := 1, minor := 0, patch := 0 }
  manifestPath := ⟨"/p/Cargo.toml"⟩
  libRoot := some ⟨"/p.rs"⟩
  binRoots := []
  edition := "2021"
  source := .path
  isMember := true

def graphP : PackageGraph :=
  { workspaceRoot := ⟨"/p"⟩, packages := [crateP], deps := [[]], rustc := none }

end Instrumentation
