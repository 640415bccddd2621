import Instrumentation.Failure
import Instrumentation.Json.Basic

/-!
Failures, conflicts and diagnostics as JSON.
-/
namespace Instrumentation

open Json (nat list strs opt)

def SourcePosition.toJson (p : SourcePosition) : Json :=
  .obj [("file", .str p.file.text), ("line", nat p.line), ("column", nat p.column),
    ("generated", .bool p.generated)]

def Diagnostic.toJson (d : Diagnostic) : Json :=
  .obj [("level", .str d.level), ("code", opt .str d.code), ("message", .str d.message),
    ("primary", opt SourcePosition.toJson d.primary),
    ("secondary", list SourcePosition.toJson d.secondary), ("text", .str d.text)]

def Conflict.toJson (c : Conflict) : Json :=
  .obj [("declaration", .str c.declaration), ("file", .str c.file.text), ("rule", .str c.rule),
    ("against", opt .str c.against), ("reason", .str c.reason)]

/-- The kind of a failure. -/
def Failure.kind : Failure → String
  | ruleDefinition .. => "RuleDefinition"
  | unresolved .. => "UnresolvedDependency"
  | versionConflict .. => "VersionConflict"
  | parse .. => "Parse"
  | conflicts _ => "InjectionConflict"
  | compilation _ => "Compilation"
  | io .. => "Io"
  | config _ => "Config"

/-- The message of a failure that has one. -/
def Failure.message? : Failure → Option Message
  | ruleDefinition _ _ m => some m
  | unresolved _ m => some m
  | versionConflict _ _ m => some m
  | config m => some m
  | io _ _ fault => some ⟨fault.message, false⟩
  | _ => none

/-- What a failure says besides its kind, stage and message. -/
def Failure.members : Failure → List (String × Json)
  | ruleDefinition source rule _ => [("source", .str source), ("rule", opt .str rule)]
  | unresolved package _ => [("package", .str package)]
  | versionConflict package rules _ => [("package", .str package), ("rules", strs rules)]
  | parse file line column _ =>
    [("file", .str file.text), ("line", nat line), ("column", nat column)]
  | conflicts cs => [("conflicts", list Conflict.toJson cs)]
  | compilation ds => [("diagnostics", list Diagnostic.toJson ds)]
  | io _ path _ => [("path", .str path.text)]
  | config _ => []

end Instrumentation
