import Instrumentation.FileTree
import Instrumentation.Json.Decode
import Instrumentation.Json.Reader

/-!
The world of a run: a file tree, and what the programs answer that the run calls. It can be given
as a JSON value, with texts for files and hexadecimal digits for files that are no text.
-/
namespace Instrumentation.CommandLine

/-- What a called program prints, and how it ends. -/
structure ToolOutput where
  stdout : String := ""
  stderr : String := ""
  status : Nat := 0
  deriving DecidableEq, Repr

structure World where
  tree : FileTree
  metadata : ToolOutput
  build : ToolOutput
  /-- What the compiler says of itself, if it can be started. -/
  rustc : Option ToolOutput
  /-- A new directory for working copies. -/
  workDir : Path
  /-- The directory of the support package, for settings that name none. -/
  runtimeDir : Path
  /-- The layout that a source text is given for reading. -/
  print : String → String := id

open Json (Fields fields? listOf?)

/-- Bytes by their hexadecimal digits. -/
def bytes? : List Char → Option (List UInt8)
  | [] => some []
  | a :: b :: rest => do
    let high ← Json.hexValue? a
    let low ← Json.hexValue? b
    return (16 * high + low).toUInt8 :: (← bytes? rest)
  | [_] => none

/-- Bytes as a text, if they are one. -/
def contentOfBytes (bs : List UInt8) : Content :=
  match String.fromUTF8? ⟨bs.toArray⟩ with
  | some s => .text s
  | none => .bytes bs

def content? : Json → Option Content
  | .str s => some (.text s)
  | j => do
    let digits ← Fields.required Json.str? (← fields? ["hex"] j) "hex"
    return contentOfBytes (← bytes? digits.toList)

/-- The names in a path. -/
def placeOf (p : Path) : Place :=
  p.components.filterMap fun
    | .name s => some s
    | _ => none

def place? (j : Json) : Option Place := j.str?.map fun s => placeOf ⟨s⟩

def files? (j : Json) : Option (List (Place × Content)) := do
  (← j.obj?).mapM fun m => do return (placeOf ⟨m.1⟩, ← content? m.2)

def ToolOutput.decode? (j : Json) : Option ToolOutput := do
  let fs ← fields? ["stdout", "stderr", "status"] j
  return {
    stdout := ← Fields.defaulted "" Json.str? fs "stdout"
    stderr := ← Fields.defaulted "" Json.str? fs "stderr"
    status := ← Fields.defaulted 0 Json.nat? fs "status" }

def World.decode? (j : Json) : Option World := do
  let fs ← fields? ["files", "dirs", "cwd", "metadata", "build", "rustc", "work_dir",
    "runtime_dir"] j
  return {
    tree := {
      files := ← Fields.defaulted [] files? fs "files"
      dirs := ← Fields.defaulted [] (listOf? place?) fs "dirs"
      cwd := ← Fields.defaulted [] place? fs "cwd" }
    metadata := ← Fields.defaulted {} ToolOutput.decode? fs "metadata"
    build := ← Fields.defaulted {} ToolOutput.decode? fs "build"
    rustc := ← Fields.optional ToolOutput.decode? fs "rustc"
    workDir := ⟨← Fields.required Json.str? fs "work_dir"⟩
    runtimeDir := ⟨← Fields.required Json.str? fs "runtime_dir"⟩ }

end Instrumentation.CommandLine
