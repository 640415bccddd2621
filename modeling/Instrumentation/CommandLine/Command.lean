import Instrumentation.CommandLine.Arguments
import Instrumentation.Config
import Instrumentation.Version.Reader

/-!
The commands: building a program, listing the declarations that rules match, and listing rules.
-/
namespace Instrumentation.CommandLine

/-- The options of the commands that work on a program. -/
structure ProgramOptions where
  path : Path := ⟨"."⟩
  config : Option Path := none
  rules : List Path := []
  disable : List String := []
  runtimeToggle : List String := []
  conflictPolicy : Option ConflictPolicy := none
  noPrune : Bool := false
  offline : Bool := false
  locked : Bool := false
  targetDir : Option Path := none
  keepWorkDir : Bool := false
  jobs : Option Nat := none
  deriving DecidableEq, Repr

inductive Command where
  | build (options : ProgramOptions) (cargoArgs : List String)
  | listMatches (options : ProgramOptions) (output : Option Path)
  | listRules (files : List Path)
  deriving DecidableEq, Repr

namespace ProgramOptions

/-- Settings with the options on top of them. -/
def apply (o : ProgramOptions) (c : Config) : Config :=
  { c with
    rules := c.rules ++ o.rules
    disabledRules := c.disabledRules ++ o.disable
    runtimeToggle := c.runtimeToggle ++ o.runtimeToggle
    conflictPolicy := o.conflictPolicy.getD c.conflictPolicy
    pruneUnreachable := c.pruneUnreachable && !o.noPrune
    offline := c.offline || o.offline
    locked := c.locked || o.locked
    keepWorkDir := c.keepWorkDir || o.keepWorkDir
    targetDir := o.targetDir.or c.targetDir
    workers := o.jobs.or c.workers }

end ProgramOptions

def anyText (_ : String) : Bool := true

/-- Paths are not empty. -/
def isPath (s : String) : Bool := !s.isEmpty

def isNumber (s : String) : Bool := (Version.readComponent? s.toList).isSome

def isPolicy (s : String) : Bool := (ConflictPolicy.ofName? s).isSome

/-- The options of every command. -/
def sharedOptions : List OptionSpec :=
  [⟨"verbose", some 'v', .count⟩, ⟨"help", some 'h', .help⟩]

def topSpec : Spec := { options := sharedOptions ++ [⟨"version", some 'V', .version⟩] }

def programOptions : List OptionSpec :=
  sharedOptions ++ [
    ⟨"config", some 'c', .value isPath false⟩, ⟨"rules", some 'r', .value isPath true⟩,
    ⟨"disable", none, .value anyText true⟩, ⟨"runtime-toggle", none, .value anyText true⟩,
    ⟨"conflict-policy", none, .value isPolicy false⟩, ⟨"no-prune", none, .flag⟩,
    ⟨"offline", none, .flag⟩, ⟨"locked", none, .flag⟩,
    ⟨"target-dir", none, .value isPath false⟩, ⟨"keep-work-dir", none, .flag⟩,
    ⟨"jobs", some 'j', .value isNumber false⟩]

def buildSpec : Spec :=
  { options := programOptions, accepts := isPath, limit := some 1, keepsTrailing := true }

def matchSpec : Spec :=
  { options := programOptions ++ [⟨"output", some 'o', .value isPath false⟩]
    accepts := isPath, limit := some 1 }

def rulesSpec : Spec := { options := sharedOptions, accepts := isPath, limit := none }

/-- The options that were given to a command on a program. -/
def ProgramOptions.ofGiven (g : Given) : ProgramOptions where
  path := (g.plain.head?.map Path.mk).getD ⟨"."⟩
  config := (g.value? "config").map Path.mk
  rules := (g.valuesOf "rules").map Path.mk
  disable := g.valuesOf "disable"
  runtimeToggle := g.valuesOf "runtime-toggle"
  conflictPolicy := (g.value? "conflict-policy").bind ConflictPolicy.ofName?
  noPrune := g.hasFlag "no-prune"
  offline := g.hasFlag "offline"
  locked := g.hasFlag "locked"
  targetDir := (g.value? "target-dir").map Path.mk
  keepWorkDir := g.hasFlag "keep-work-dir"
  jobs := (g.value? "jobs").bind fun s => Version.readComponent? s.toList

/-- The arguments of a command, and the command that they make. -/
structure CommandSpec where
  name : String
  spec : Spec
  make : Given → Except Ending Command

def commands : List CommandSpec :=
  [⟨"build", buildSpec, fun g => .ok (.build (.ofGiven g) g.trailing)⟩,
    ⟨"match", matchSpec, fun g =>
      .ok (.listMatches (.ofGiven g) ((g.value? "output").map Path.mk))⟩,
    ⟨"rules", rulesSpec, fun g =>
      if g.plain.isEmpty then .error .usage else .ok (.listRules (g.plain.map Path.mk))⟩]

/-- Asking for help by a command of its own, maybe on one of the commands. -/
def readHelp (args : List String) : Ending :=
  match args with
  | [] => .help
  | [name] => if name = "help" || commands.any fun c => c.name == name then .help else .usage
  | _ => .usage

/-- Reads a command; options may stand before its name. -/
def Command.read : List String → Except Ending Command
  | [] => .error .usage
  | a :: rest =>
    match commands.find? fun c => c.name == a with
    | some c => (readArguments c.spec {} rest).bind c.make
    | none =>
      if a = "help" then .error (readHelp rest)
      else if a = "--" then .error .usage
      else match readArgument topSpec {} a with
        | .ok _ => Command.read rest
        | .error e => .error e

end Instrumentation.CommandLine
