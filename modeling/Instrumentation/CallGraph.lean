import Instrumentation.Closure
import Instrumentation.EntryPoint
import Instrumentation.Matches
import Instrumentation.Text.SortedSet

/-!
Call graphs by name: a function may call every function whose name its body mentions. That takes
in more calls than there are, which keeps more functions alive and never fewer.
-/
namespace Instrumentation

/-- A function of a file in a package. -/
structure CallNode where
  package : Nat
  path : Path
  function : Source.FunctionSummary

structure CallGraph where
  nodes : List CallNode := []
  /-- The numbers of the functions that are entry points by themselves. -/
  direct : List Nat := []
  /-- The names that code outside of functions mentions, increasing. -/
  rootNames : List String := []

namespace CallGraph

def addFile (g : CallGraph) (package : Nat) (file : SourceFile) (role : FileRole) : CallGraph :=
  { nodes := g.nodes ++ file.scan.functions.map fun f => ⟨package, file.path, f⟩
    direct := g.direct ++ (role.entryPoints file.scan).map fun e => g.nodes.length + e.1
    rootNames := Text.sortedSet (g.rootNames ++ file.scan.itemMentions) }

/-- The numbers of the functions of a name. -/
def named (g : CallGraph) (name : String) : List Nat :=
  (g.nodes.zipIdx.filter fun n => n.1.function.name == name).map Prod.snd

/-- The functions that a body may call. -/
def calleesOf (g : CallGraph) (f : Source.FunctionSummary) : List Nat :=
  f.mentions.flatMap g.named

def callees (g : CallGraph) (i : Nat) : List Nat :=
  ((g.nodes[i]?).map fun n => g.calleesOf n.function).getD []

/-- All entry points: the direct ones, and what is mentioned outside of functions. -/
def entries (g : CallGraph) : List Nat := g.direct ++ g.rootNames.flatMap g.named

/-- For each function, whether it can run. -/
def reachable (g : CallGraph) : List Bool := reachableFlags g.nodes.length g.callees g.entries

end CallGraph
end Instrumentation
