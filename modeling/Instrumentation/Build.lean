import Instrumentation.Compiler.Remapping
import Instrumentation.InstrumentedProgram

/-!
Building an instrumented program. A build is prepared as a working copy and a request to the
compiler; what the compiler answers then makes the result.
-/
namespace Instrumentation

structure BuildResult where
  artifacts : List Artifact
  warnings : List Diagnostic
  /-- The directory of the working copy, if it is kept. -/
  workDir : Option Path := none

/-- A build that the compiler can be asked for. -/
structure Build where
  /-- The file tree with the working copy in it. -/
  tree : FileTree
  copy : WorkingCopy
  files : List InstrumentedFile
  request : CompileRequest
  keepsCopy : Bool

namespace Build

/-- The name of the report in the working copy. -/
def reportName : String := "matched_rules.json"

def requestOf (config : Config) (g : PackageGraph) (w : WorkingCopy) : CompileRequest :=
  { manifestPath := w.manifestPath
    targetDir := some (config.targetDir.getD (g.workspaceRoot / "target" / "hookweave"))
    offline := config.offline, locked := config.locked, extraArgs := config.cargoArgs }

/-- Makes the working copy of an instrumented program in the directory `base`. Copies for reading are
laid out by `print`. -/
def writeCopy (base runtimeDir : Path) (print : String → String) (config : Config) (a : Analysis)
    (p : InstrumentedProgram) : Writing WorkingCopy := do
  let plan : WorkingCopy.Plan := {
    instrumented := p.packages, hookCrates := p.hookCrates
    runtimeDir := config.runtimePath.getD runtimeDir }
  let copy ← WorkingCopy.copyProgram base a.graph plan
  copy.writeFiles p.files
  copy.writeReport reportName a.report.pretty
  if config.keepWorkDir then copy.writeDebugCopies print p.files
  return copy

/-- The build of an instrumented program with a working copy in the tree. -/
def ofCopy (config : Config) (a : Analysis) (p : InstrumentedProgram) (tree : FileTree)
    (copy : WorkingCopy) : Build :=
  { tree, copy, files := p.files, request := requestOf config a.graph copy
    keepsCopy := config.keepWorkDir }

/-- The build of an instrumented program with its working copy in the empty directory `base`. Copies
for reading are laid out like the text itself. -/
def prepare (t : FileTree) (base runtimeDir : Path) (config : Config) (a : Analysis)
    (p : InstrumentedProgram) : Except Failure Build :=
  ((writeCopy base runtimeDir id config a p).result t).map fun (tree, copy) =>
    ofCopy config a p tree copy

/-- The result of a build; a failed one fails with every error. -/
def finish (b : Build) (out : CompileOutput) : Except Failure BuildResult :=
  if out.success then
    .ok { artifacts := out.artifacts, warnings := Remapping.warnings b.copy b.files out
          workDir := if b.keepsCopy then some b.copy.base else none }
  else .error (.compilation (Remapping.errors b.copy b.files out))

end Build
end Instrumentation
