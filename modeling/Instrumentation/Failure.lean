import Instrumentation.Path

/-!
What can go wrong in a run, by the stage that finds it. Every failure ends the run: it comes from
the rules, the packages, the sources or the compiler, none of which a second try would change.
-/
namespace Instrumentation

/-- The parts of a run, for messages. -/
inductive RunStage where
  | registry | resolver | matcher | injector | optimizer | orchestrator
  deriving DecidableEq, Repr

def RunStage.text : RunStage → String
  | registry => "rule registry"
  | resolver => "dependency resolver"
  | matcher => "ast matcher"
  | injector => "trampoline injector"
  | optimizer => "ast optimizer"
  | orchestrator => "build orchestrator"

/-- A message. -/
structure Message where
  text : String
  /-- The text goes on with what the reader of some format says of its input. -/
  quotesReader : Bool := false
  deriving DecidableEq, Repr

/-- Why a file could not be read or written. -/
inductive IoFault where
  | notFound
  | isDirectory
  | notDirectory
  | notText
  | nameTooLong
  | occupied
  | other (message : String)
  deriving DecidableEq, Repr

def IoFault.message : IoFault → String
  | notFound => "No such file or directory (os error 2)"
  | isDirectory => "Is a directory (os error 21)"
  | notDirectory => "Not a directory (os error 20)"
  | notText => "stream did not contain valid UTF-8"
  | nameTooLong => "File name too long (os error 36)"
  | occupied => "File exists (os error 17)"
  | other m => m

/-- A rule that cannot be applied to a declaration. -/
structure Conflict where
  declaration : String
  file : Path
  rule : String
  /-- The earlier rule that it contradicts; without one, it contradicts the declaration itself. -/
  against : Option String
  reason : String
  deriving DecidableEq, Repr

def Conflict.text (c : Conflict) : String :=
  match c.against with
  | some other => "rule '" ++ c.rule ++ "' conflicts with rule '" ++ other ++ "' on "
      ++ c.declaration ++ " (" ++ c.file.text ++ "): " ++ c.reason
  | none => "rule '" ++ c.rule ++ "' cannot be applied to " ++ c.declaration ++ " ("
      ++ c.file.text ++ "): " ++ c.reason

/-- A place in a source file, lines and columns from one. -/
structure SourcePosition where
  file : Path
  line : Nat
  column : Nat
  /-- The compiler pointed into inserted text, which stands for this place. -/
  generated : Bool
  deriving DecidableEq, Repr

/-- What the compiler says of the program, in terms of its own sources. -/
structure Diagnostic where
  level : String
  code : Option String
  message : String
  primary : Option SourcePosition
  secondary : List SourcePosition
  deriving DecidableEq, Repr

def Diagnostic.text (d : Diagnostic) : String :=
  d.level ++ d.code.elim "" (fun c => "[" ++ c ++ "]") ++ ": " ++ d.message ++
    d.primary.elim "" fun p =>
      "\n  --> " ++ p.file.text ++ ":" ++ toString p.line ++ ":" ++ toString p.column ++
        if p.generated then " (in injected instrumentation)" else ""

/-- What ends a run. -/
inductive Failure where
  | ruleDefinition (source : String) (rule : Option String) (message : Message)
  | unresolved (package : String) (message : Message)
  | versionConflict (package : String) (rules : List String) (message : Message)
  | parse (file : Path) (line column : Nat) (message : Message)
  | conflicts (conflicts : List Conflict)
  | compilation (diagnostics : List Diagnostic)
  | io (stage : RunStage) (path : Path) (fault : IoFault)
  | config (message : Message)
  deriving DecidableEq, Repr

namespace Failure

/-- The stage that failed. -/
def stage : Failure → RunStage
  | ruleDefinition .. => .registry
  | unresolved .. => .resolver
  | versionConflict .. => .resolver
  | parse .. => .matcher
  | conflicts _ => .injector
  | compilation _ => .orchestrator
  | io s _ _ => s
  | config _ => .orchestrator

def quotesReader : Failure → Bool
  | ruleDefinition _ _ m => m.quotesReader
  | unresolved _ m => m.quotesReader
  | versionConflict _ _ m => m.quotesReader
  | parse _ _ _ m => m.quotesReader
  | config m => m.quotesReader
  | _ => false

/-- The text after the name of the stage. -/
def detail : Failure → String
  | ruleDefinition source _ m => "rule definition error in " ++ source ++ ": " ++ m.text
  | unresolved package m => "unresolved dependency '" ++ package ++ "': " ++ m.text
  | versionConflict package _ m => "version conflict on '" ++ package ++ "': " ++ m.text
  | parse file _ _ m => "failed to parse " ++ file.text ++ ": " ++ m.text
  | conflicts cs => toString cs.length ++ " injection conflict(s): " ++
      Text.joined "; " (cs.map Conflict.text)
  | compilation ds => "compilation failed with " ++ toString ds.length ++ " error(s):\n" ++
      Text.joined "\n" (ds.map Diagnostic.text)
  | io _ path fault => "I/O error on " ++ path.text ++ ": " ++ fault.message
  | config m => m.text

def text (f : Failure) : String :=
  match f with
  | config m => "configuration error: " ++ m.text
  | f => "[" ++ f.stage.text ++ "] " ++ f.detail

end Failure
end Instrumentation
