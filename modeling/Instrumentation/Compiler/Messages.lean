import Instrumentation.Json.Reader
import Instrumentation.Package.Metadata

/-!
What a build says: the artifacts it made, and diagnostics with places in the sources it was given.
A line that is no message of the expected form is passed over.
-/
namespace Instrumentation

/-- A place that the compiler points at. -/
structure Span where
  file : Path
  line : Nat
  column : Nat
  isPrimary : Bool
  deriving DecidableEq, Repr

/-- A diagnostic as the compiler gives it. -/
structure RawDiagnostic where
  level : String
  code : Option String
  message : String
  spans : List Span
  deriving DecidableEq, Repr

structure Artifact where
  package : String
  target : String
  filenames : List Path
  executable : Option Path
  deriving DecidableEq, Repr

structure CompileOutput where
  success : Bool := false
  artifacts : List Artifact := []
  diagnostics : List RawDiagnostic := []
  deriving DecidableEq, Repr

/-- What a build is asked for. -/
structure CompileRequest where
  manifestPath : Path
  targetDir : Option Path := none
  offline : Bool := false
  locked : Bool := false
  extraArgs : List String := []
  deriving DecidableEq, Repr

namespace CompileRequest

/-- The arguments of the build command. -/
def args (r : CompileRequest) : List String :=
  ["build", "--message-format=json", "--manifest-path", r.manifestPath.text]
    ++ (r.targetDir.map fun d => ["--target-dir", d.text]).getD []
    ++ (if r.offline then ["--offline"] else [])
    ++ (if r.locked then ["--locked"] else [])
    ++ r.extraArgs

end CompileRequest

namespace Messages

open Json (Fields knownFields? listOf? below?)

def number? : Json → Option Nat := below? Json.wordBound

def applicabilities : List String :=
  ["MachineApplicable", "HasPlaceholders", "MaybeIncorrect", "Unspecified"]

/-- The levels of diagnostics, and what each counts as; notes and summaries count as nothing. -/
def level? (j : Json) : Option (Option String) :=
  match j with
  | .str "error: internal compiler error" => some (some "error")
  | .str "error" => some (some "error")
  | .str "warning" => some (some "warning")
  | .str "failure-note" => some none
  | .str "note" => some none
  | .str "help" => some none
  | _ => none

def spanLine? (j : Json) : Option Unit := do
  let fs ← knownFields? ["text", "highlight_start", "highlight_end"] j
  let _ ← Fields.required Json.str? fs "text"
  let _ ← Fields.required number? fs "highlight_start"
  let _ ← Fields.required number? fs "highlight_end"
  return ()

mutual

/-- A span; `fuel` bounds how deep expansions nest. -/
def span? (fuel : Nat) (j : Json) : Option Span := do
  let fs ← knownFields? ["file_name", "byte_start", "byte_end", "line_start", "line_end",
    "column_start", "column_end", "is_primary", "text", "label", "suggested_replacement",
    "suggestion_applicability", "expansion"] j
  let _ ← Fields.required (below? Json.halfBound) fs "byte_start"
  let _ ← Fields.required (below? Json.halfBound) fs "byte_end"
  let _ ← Fields.required number? fs "line_end"
  let _ ← Fields.required number? fs "column_end"
  let _ ← Fields.required (listOf? spanLine?) fs "text"
  let _ ← Fields.optional Json.str? fs "label"
  let _ ← Fields.optional Json.str? fs "suggested_replacement"
  let _ ← Fields.optional (fun j => j.str?.filter applicabilities.contains) fs
    "suggestion_applicability"
  match fuel with
  | 0 => none
  | fuel + 1 =>
    let _ ← Fields.optional (expansion? fuel) fs "expansion"
    return ⟨⟨← Fields.required Json.str? fs "file_name"⟩, ← Fields.required number? fs "line_start",
      ← Fields.required number? fs "column_start", ← Fields.required Json.bool? fs "is_primary"⟩

def expansion? (fuel : Nat) (j : Json) : Option Unit := do
  let fs ← knownFields? ["span", "macro_decl_name", "def_site_span"] j
  let _ ← Fields.required Json.str? fs "macro_decl_name"
  match fuel with
  | 0 => none
  | fuel + 1 =>
    let _ ← Fields.required (span? fuel) fs "span"
    let _ ← Fields.optional (span? fuel) fs "def_site_span"
    return ()

end

def code? (j : Json) : Option String := do
  let fs ← knownFields? ["code", "explanation"] j
  let _ ← Fields.optional Json.str? fs "explanation"
  Fields.required Json.str? fs "code"

/-- A diagnostic, if it counts as one; `fuel` bounds how deep its parts nest. -/
def diagnostic? (fuel : Nat) (j : Json) : Option (Option RawDiagnostic) := do
  let fs ← knownFields? ["message", "code", "level", "spans", "children", "rendered"] j
  let _ ← Fields.optional Json.str? fs "rendered"
  match fuel with
  | 0 => none
  | fuel + 1 =>
    let _ ← Fields.required (listOf? (diagnostic? fuel)) fs "children"
    let message ← Fields.required Json.str? fs "message"
    let code ← Fields.optional code? fs "code"
    let level ← Fields.required level? fs "level"
    let spans ← Fields.required (listOf? (span? fuel)) fs "spans"
    return level.map fun level => ⟨level, code, message, spans⟩

/-- How much debug information an artifact has; only its form is checked. -/
def debuginfo? : Json → Option Unit
  | .null => some ()
  | .int n => if -(Json.signedBound : Int) ≤ n && n < Json.signedBound then some () else none
  | .str _ => some ()
  | _ => none

def profile? (j : Json) : Option Unit := do
  let fs ← knownFields? ["opt_level", "debuginfo", "debug_assertions", "overflow_checks", "test"] j
  let _ ← Fields.required Json.str? fs "opt_level"
  let _ ← Fields.defaulted () debuginfo? fs "debuginfo"
  let _ ← Fields.required Json.bool? fs "debug_assertions"
  let _ ← Fields.required Json.bool? fs "overflow_checks"
  let _ ← Fields.required Json.bool? fs "test"
  return ()

def artifact? (j : Json) : Option Artifact := do
  let fs ← knownFields? ["package_id", "manifest_path", "target", "profile", "features",
    "filenames", "executable", "fresh"] j
  let _ ← Fields.defaulted "" Json.str? fs "manifest_path"
  let _ ← Fields.required profile? fs "profile"
  let _ ← Fields.required Metadata.texts? fs "features"
  let _ ← Fields.required Json.bool? fs "fresh"
  let target ← Fields.required Metadata.target? fs "target"
  return {
    package := ← Fields.required Json.str? fs "package_id"
    target := target.name
    filenames := (← Fields.required Metadata.texts? fs "filenames").map Path.mk
    executable := (← Fields.optional Json.str? fs "executable").map Path.mk }

def compilerMessage? (fuel : Nat) (j : Json) : Option (Option RawDiagnostic) := do
  let fs ← knownFields? ["package_id", "target", "message"] j
  let _ ← Fields.required Json.str? fs "package_id"
  let _ ← Fields.required Metadata.target? fs "target"
  Fields.required (diagnostic? fuel) fs "message"

def finished? (j : Json) : Option Bool := do
  let fs ← knownFields? ["success"] j
  Fields.required Json.bool? fs "success"

/-- What a message adds to the output of a build. -/
def addMessage (out : CompileOutput) (fuel : Nat) (reason : String) (body : Json) : CompileOutput :=
  match reason with
  | "compiler-artifact" => match artifact? body with
    | some a => { out with artifacts := out.artifacts ++ [a] }
    | none => out
  | "compiler-message" => match compilerMessage? fuel body with
    | some (some d) => { out with diagnostics := out.diagnostics ++ [d] }
    | _ => out
  | "build-finished" => match finished? body with
    | some success => { out with success }
    | none => out
  | _ => out

/-- What a line adds to the output of a build. -/
def addLine (out : CompileOutput) (line : List Char) : CompileOutput :=
  match Json.readFirst? line with
  | some (.obj ms) =>
    match ms.filter fun m => m.1 == "reason" with
    | [(_, .str reason)] => addMessage out line.length reason (.obj ms)
    | _ => out
  | _ => out

/-- The output of a build from the lines it writes. -/
def read (stream : String) : CompileOutput :=
  (Text.lines stream.toList).foldl addLine {}

end Messages
end Instrumentation
