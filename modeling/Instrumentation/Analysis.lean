import Instrumentation.Config
import Instrumentation.Json.Printer
import Instrumentation.Matching
import Instrumentation.Selection

/-!
The analysis of a program: its packages, the rules that apply to them, and the declarations that
these rules select.
-/
namespace Instrumentation

structure Analysis where
  graph : PackageGraph
  registry : Registry
  found : MatchSet

namespace Analysis

/-- Looks for matches of the rules that apply to the packages. -/
def ofRules (t : FileTree) (rules : Registry) (graph : PackageGraph) : Except Failure Analysis := do
  let registry ← Selection.select graph rules
  return { graph, registry, found := ← Matching.find t graph registry }

/-- Reads the rules, then looks for matches. -/
def run (t : FileTree) (config : Config) (graph : PackageGraph) : Except Failure Analysis := do
  ofRules t (← Registry.loadFiles t config.rules) graph

/-- A match for the report. -/
def matchRecord (g : PackageGraph) (m : Match) : Json :=
  .obj [("rule", .str m.rule.id),
    ("package", .str (((g.packages[m.package]?).map Package.label).getD "")),
    ("import_path", .str m.importPath), ("declaration", .str m.declaration),
    ("file", .str m.file.path.text), ("line", .nat m.decl.line)]

/-- The list of all matches. -/
def report (a : Analysis) : Json := .list (matchRecord a.graph) a.found.toList

end Analysis
end Instrumentation
