import Instrumentation.Failure
import Instrumentation.Matches
import Instrumentation.Rendering
import Instrumentation.Splice.Text

/-!
Instrumented files: a scanned file with the stages of its declarations. The rendered text, and the
way back from it, depend on nothing else.
-/
namespace Instrumentation

structure InstrumentedDecl where
  importPath : String
  decl : Source.Declaration
  /-- The applied rules, outermost first. -/
  stages : List Stage
  groups : List Group
  /-- It is known that the declaration never runs. -/
  pruned : Bool

structure InstrumentedFile where
  /-- The number of the package that owns the file. -/
  package : Nat
  source : SourceFile
  /-- The crates that the file, as a crate root, has to make known. -/
  externs : List String := []
  decls : List InstrumentedDecl := []

namespace InstrumentedDecl

/-- Every stage has a guard of its own at first. -/
def ofStages (importPath : String) (decl : Source.Declaration) (stages : List Stage) :
    InstrumentedDecl :=
  ⟨importPath, decl, stages, Group.singles stages.length, false⟩

def isActive (d : InstrumentedDecl) : Bool := !d.pruned && !d.stages.isEmpty

def splice (d : InstrumentedDecl) : Splice :=
  Splice.generate d.importPath d.decl d.stages d.groups

def form (d : InstrumentedDecl) : BodyForm := Stage.bodyForm d.decl d.stages

/-- The text around the body, on both sides standing for the opening brace. -/
def insertions (d : InstrumentedDecl) : List Rendering.Insertion :=
  let s := d.splice
  [⟨d.decl.bodyOpen, d.decl.bodyOpen, s.before.toList⟩,
    ⟨d.decl.bodyClose + 1, d.decl.bodyOpen, s.after.toList⟩]

end InstrumentedDecl

namespace InstrumentedFile

def path (f : InstrumentedFile) : Path := f.source.path

def activeDecls (f : InstrumentedFile) : List InstrumentedDecl :=
  f.decls.filter InstrumentedDecl.isActive

def isModified (f : InstrumentedFile) : Bool := !f.externs.isEmpty || !f.activeDecls.isEmpty

/-- The crates that have to be made known, after the inner attributes or else at the start. -/
def externInsertions (f : InstrumentedFile) : List Rendering.Insertion :=
  if f.externs.isEmpty then []
  else
    let line := Splice.externCrateLine f.externs
    let start := f.source.scan.innerAttrsEnd
    [⟨start, start, (if start = f.source.scan.bom then line ++ " " else " " ++ line).toList⟩]

def insertions (f : InstrumentedFile) : List Rendering.Insertion :=
  f.externInsertions ++ f.activeDecls.flatMap InstrumentedDecl.insertions

def rendering (f : InstrumentedFile) : Rendering :=
  Rendering.ofInsertions f.source.scan.text f.insertions

def text (f : InstrumentedFile) : String := String.ofList f.rendering.text

/-- The origin of a place in the rendered text. A byte order mark takes no column. -/
def locate (f : InstrumentedFile) (line column : Nat) : Mapped :=
  let mark := if f.source.scan.bom > 0 && line == 1 then 1 else 0
  let r := f.rendering
  r.origin (Text.offsetAt r.text line (column - 1 + mark))

/-- The place in the source file that a place in the rendered text stands for. -/
def toSource (f : InstrumentedFile) (line column : Nat) : SourcePosition :=
  let mapped := f.locate line column
  let (l, c) := Text.lineCol f.source.scan.text mapped.offset
  let c := if l == 1 && f.source.scan.bom > 0 then max (c - 1) 1 else c
  ⟨f.path, l, c, mapped.generated⟩

/-- Whether a place in the rendered text is inserted, or the brace of an instrumented body. -/
def isInstrumentationSite (f : InstrumentedFile) (line column : Nat) : Bool :=
  let mapped := f.locate line column
  mapped.generated || f.activeDecls.any fun d => d.decl.bodyOpen == mapped.offset

/-- Each rendered line with the source line it comes from. -/
def lineTable (f : InstrumentedFile) : List (Nat × Nat) :=
  f.rendering.lineTable f.source.scan.text

end InstrumentedFile
end Instrumentation
