import Instrumentation.Compiler.Messages
import Instrumentation.WorkingCopy.Files

/-!
What the compiler says of the working copy, told of the program itself: every place it points at
becomes the place in the program's own sources that it stands for.
-/
namespace Instrumentation.Remapping

/-- The file of a span in the working copy; relative ones are seen from the workspace. -/
def fileInCopy (w : WorkingCopy) (s : Span) : Path :=
  (if s.file.isAbsolute then s.file else w.root.join s.file.text).normalize

/-- The modified file that a path of the program names. -/
def modifiedAt? (files : List InstrumentedFile) (p : Path) : Option InstrumentedFile :=
  (files.filter fun f => f.isModified && f.path.normalize.same p).getLast?

/-- The modified file that a span lies in. -/
def instrumented? (w : WorkingCopy) (files : List InstrumentedFile) (s : Span) :
    Option InstrumentedFile :=
  (w.sourcePath? (fileInCopy w s)).bind (modifiedAt? files)

/-- The place that a span stands for. A file outside the working copy is named as it was given. -/
def position (w : WorkingCopy) (files : List InstrumentedFile) (s : Span) : SourcePosition :=
  match w.sourcePath? (fileInCopy w s) with
  | none => ⟨s.file, s.line, s.column, false⟩
  | some source => match modifiedAt? files source with
    | none => ⟨source, s.line, s.column, false⟩
    | some f => f.toSource s.line s.column

/-- The first primary span, and all others in order. -/
def splitPrimary : List Span → Option Span × List Span
  | [] => (none, [])
  | s :: rest =>
    if s.isPrimary then (some s, rest)
    else
      let (primary, others) := splitPrimary rest
      (primary, s :: others)

def diagnostic (w : WorkingCopy) (files : List InstrumentedFile) (d : RawDiagnostic) : Diagnostic :=
  let (primary, others) := splitPrimary d.spans
  { level := d.level, code := d.code, message := d.message
    primary := primary.map (position w files), secondary := others.map (position w files) }

/-- Whether a span points at instrumentation. -/
def atInstrumentation (w : WorkingCopy) (files : List InstrumentedFile) (s : Span) : Bool :=
  match instrumented? w files s with
  | some f => f.isInstrumentationSite s.line s.column
  | none => false

/-- Whether a diagnostic speaks of instrumentation only: a body in a second block has braces that
nothing needs. -/
def isInjectionLint (w : WorkingCopy) (files : List InstrumentedFile) (d : RawDiagnostic) : Bool :=
  let primary := d.spans.filter Span.isPrimary
  d.code == some "unused_braces" && !primary.isEmpty && primary.all (atInstrumentation w files)

/-- The diagnostics that speak of the program. -/
def relevant (w : WorkingCopy) (files : List InstrumentedFile) (out : CompileOutput) :
    List RawDiagnostic :=
  out.diagnostics.filter fun d => !isInjectionLint w files d

def isError (d : RawDiagnostic) : Bool := d.level == "error"

def errors (w : WorkingCopy) (files : List InstrumentedFile) (out : CompileOutput) :
    List Diagnostic :=
  ((relevant w files out).filter isError).map (diagnostic w files)

def warnings (w : WorkingCopy) (files : List InstrumentedFile) (out : CompileOutput) :
    List Diagnostic :=
  ((relevant w files out).filter fun d => !isError d).map (diagnostic w files)

end Instrumentation.Remapping
