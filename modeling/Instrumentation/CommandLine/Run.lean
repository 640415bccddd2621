import Instrumentation.Build
import Instrumentation.CommandLine.Causes
import Instrumentation.CommandLine.Command
import Instrumentation.CommandLine.World

/-!
Running commands. The outcome of a run is what it prints, the calls it makes and the files it
leaves.
-/
namespace Instrumentation.CommandLine

structure Outcome where
  code : Nat := 0
  stdout : String := ""
  stderr : String := ""
  /-- The messages go on with what the reader of some format says of its input. -/
  quotesReader : Bool := false
  calls : List (List String) := []
  tree : FileTree
  keepsCopy : Bool := false

/-- What is printed for the version. -/
def versionLine : String := "hookweave 0.1.0\n"

def usageLine : String := "Usage: hookweave [OPTIONS] <COMMAND>\n"

def Outcome.failed (t : FileTree) (calls : List (List String)) (f : CommandFailure) : Outcome :=
  { code := 1, stderr := f.text, quotesReader := f.quotesReader, calls, tree := t }

/-- The settings in a file. -/
def loadConfig (t : FileTree) (p : Path) : Except CommandFailure Config :=
  match t.readText p with
  | .error fault => .error (.ofFault ("Failed to read " ++ p.text) fault)
  | .ok text => match Config.read? text ((p.parent?).getD ⟨"."⟩) with
    | some c => .ok c
    | none => .error ⟨"in " ++ p.text, [Config.invalid], true⟩

/-- The settings of a program, which need not have any. -/
def discoverConfig (t : FileTree) (dir : Path) : Except CommandFailure Config :=
  let p := dir / Config.fileName
  if t.isFile p then
    (loadConfig t p).mapError (CommandFailure.inContext ("Failed to load " ++ p.text))
  else .ok {}

def ProgramOptions.settings (t : FileTree) (o : ProgramOptions) : Except CommandFailure Config := do
  return o.apply (← o.config.elim (discoverConfig t o.path) (loadConfig t))

def programRoot (t : FileTree) (p : Path) : Except CommandFailure Path :=
  (t.canonical p).mapError (.ofFault ("Program root " ++ p.text ++ " not found"))

/-- The call for the packages of a program. -/
def metadataCall (config : Config) (root : Path) : List String :=
  ["metadata", "--format-version", "1", "--manifest-path", (root / Manifest.fileName).text]
    ++ (if config.offline then ["--offline"] else [])
    ++ (if config.locked then ["--locked"] else [])

/-- The version of the compiler. -/
def World.compilerVersion? (w : World) : Option Version :=
  w.rustc.bind fun out => if out.status = 0 then Version.ofCompilerText? out.stdout else none

/-- The packages of a program, in the first line of the answer that starts like an object. -/
def World.packages (w : World) (root : Path) : Except Failure PackageGraph :=
  let fault (m : Message) := Except.error (Failure.unresolved (root / Manifest.fileName).text m)
  if w.metadata.status ≠ 0 then
    fault ⟨String.ofList (Text.trim w.metadata.stderr.toList), false⟩
  else
    let isObject (line : List Char) := line.head? == some (Char.ofNat 0x7B)
    match (Text.lines w.metadata.stdout.toList).find? isObject with
    | none => fault ⟨"could not find any json in the output of `cargo metadata` ", false⟩
    | some line => match (Json.read? (String.ofList line)).bind Metadata.decode? with
      | none => fault ⟨"", true⟩
      | some m => m.toGraph w.compilerVersion?

/-- The last lines of a text. -/
def lastLines (count : Nat) (s : String) : String :=
  let lines := Text.lines s.toList
  Text.joined "\n" ((lines.drop (lines.length - count)).map String.ofList)

/-- What the build says. A build that fails without an error is an error itself. -/
def World.buildOutput (w : World) : CompileOutput :=
  let out := { Messages.read w.build.stdout with success := w.build.status = 0 }
  if out.success || out.diagnostics.any Remapping.isError then out
  else { out with diagnostics := out.diagnostics ++ [{
    level := "error", code := none, spans := []
    message := "cargo exited with exit status: " ++ toString w.build.status ++ ": "
      ++ lastLines 20 w.build.stderr }] }

/-- The analysis of a program, and the calls it takes. -/
def World.analyze (w : World) (config : Config) (root : Path) :
    List (List String) × Except Failure Analysis :=
  match Registry.loadFiles w.tree config.rules with
  | .error e => ([], .error e)
  | .ok rules =>
    ([metadataCall config root], (w.packages root).bind (Analysis.ofRules w.tree rules))

/-- Texts on lines of their own. -/
def printed (xs : List String) : String := String.join (xs.map fun x => x ++ "\n")

/-- What is printed of a build. -/
def buildLines (r : BuildResult) : List String :=
  r.artifacts.filterMap (fun a => a.executable.map Path.text)
    ++ (r.workDir.map fun d => "Working copy kept at " ++ d.text).toList

def runBuild (w : World) (o : ProgramOptions) (cargoArgs : List String) :
    Except CommandFailure Outcome := do
  let config ← o.settings w.tree
  let config := { config with cargoArgs := config.cargoArgs ++ cargoArgs }
  let root ← programRoot w.tree o.path
  let (calls, analysis) := w.analyze config root
  let instrumented := do
    let a ← analysis
    return (a, ← InstrumentedProgram.ofAnalysis w.tree config a)
  let failed := CommandFailure.ofFailure "Instrumented build failed"
  match instrumented with
  | .error e => return .failed w.tree calls (failed e)
  | .ok (a, p) =>
    let (copy, tree) := (Build.writeCopy w.workDir w.runtimeDir w.print config a p).on w.tree
    match copy with
    | .error e => return .failed (tree.withoutDir w.workDir) calls (failed e)
    | .ok copy =>
      let b := Build.ofCopy config a p tree copy
      let calls := calls ++ [b.request.args]
      let tree := if b.keepsCopy then tree else tree.withoutDir w.workDir
      match b.finish w.buildOutput with
      | .error e =>
        return { Outcome.failed tree calls (failed e) with keepsCopy := b.keepsCopy }
      | .ok r => return {
          stdout := printed (buildLines r), stderr := printed (r.warnings.map Diagnostic.text)
          calls, tree, keepsCopy := b.keepsCopy }

def runMatch (w : World) (o : ProgramOptions) (output : Option Path) :
    Except CommandFailure Outcome := do
  let config ← o.settings w.tree
  let root ← programRoot w.tree o.path
  let (calls, analysis) := w.analyze config root
  match analysis with
  | .error e => return .failed w.tree calls (.ofFailure "Matching failed" e)
  | .ok a =>
    let report := a.report.pretty
    match output with
    | none => return { stdout := report ++ "\n", calls, tree := w.tree }
    | some p => match w.tree.write p (.text report) with
      | .error fault =>
        return .failed w.tree calls (.ofFault ("Failed to write " ++ p.text) fault)
      | .ok tree => return {
          stdout := toString a.found.toList.length ++ " match(es) written to " ++ p.text ++ "\n"
          calls, tree }

/-- A text with blanks after it up to a number of columns. -/
def atLeft (width : Nat) (s : String) : String :=
  s ++ String.ofList (List.replicate (width - s.length) ' ')

def ruleLine (r : Rule) : String :=
  atLeft 28 r.id ++ " " ++ r.selector ++ "  [" ++ r.version.text ++ "]"

def runRules (w : World) (files : List Path) : Except CommandFailure Outcome := do
  let registry ← (Registry.loadFiles w.tree files).mapError (.ofFailure "Invalid rule files")
  return {
    stdout := printed (registry.rules.map ruleLine ++ [toString registry.rules.length ++ " rule(s), "
      ++ toString registry.hookCrates.length ++ " hook crate(s)"])
    tree := w.tree }

def Command.run (w : World) : Command → Except CommandFailure Outcome
  | build o cargoArgs => runBuild w o cargoArgs
  | listMatches o output => runMatch w o output
  | listRules files => runRules w files

/-- Runs the command that arguments spell. -/
def run (w : World) (args : List String) : Outcome :=
  match Command.read args with
  | .error .usage => { code := 2, stderr := usageLine, tree := w.tree }
  | .error .help => { stdout := usageLine, tree := w.tree }
  | .error .version => { stdout := versionLine, tree := w.tree }
  | .ok c => match c.run w with
    | .ok outcome => outcome
    | .error f => .failed w.tree [] f

end Instrumentation.CommandLine
