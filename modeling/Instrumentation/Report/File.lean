import Instrumentation.InstrumentedFile
import Instrumentation.Json.Basic

/-!
Instrumented files as JSON.
-/
namespace Instrumentation

open Json (nat list strs opt)

def BodyForm.text : BodyForm → String
  | guard => "guard"
  | observing => "observing"

def Group.toJson : Group → Json
  | single k => nat k
  | fused start stop => .arr [nat start, nat stop]

def InstrumentedDecl.toJson (d : InstrumentedDecl) : Json :=
  .obj [("import_path", .str d.importPath), ("decl", .str d.decl.qualifiedName),
    ("rules", strs (d.stages.map fun s => s.rule.id)),
    ("runtime", list (fun (s : Stage) => .bool s.toggled) d.stages),
    ("groups", list Group.toJson d.groups), ("form", .str d.form.text),
    ("pruned", .bool d.pruned), ("active", .bool d.isActive)]

/-- A file without its text. -/
def InstrumentedFile.members (f : InstrumentedFile) : List (String × Json) :=
  [("file", .str f.path.text), ("package", nat f.package), ("modified", .bool f.isModified),
    ("prelude", strs f.externs), ("decls", list InstrumentedDecl.toJson f.decls),
    ("inserted_bytes", nat f.rendering.insertedBytes)]

def InstrumentedFile.membersWithText (f : InstrumentedFile) : List (String × Json) :=
  f.members ++ [("text", .str f.text)]

end Instrumentation
