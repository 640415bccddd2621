import Instrumentation.InstrumentedFile
import Instrumentation.WorkingCopy.Basic

/-!
What is written into a working copy besides manifests: instrumented files, a report, and copies of
the instrumented files for reading.
-/
namespace Instrumentation.WorkingCopy

/-- Writes the modified files to their places in the copy. -/
def writeFiles (w : WorkingCopy) (files : List InstrumentedFile) : Writing Unit :=
  (files.filter InstrumentedFile.isModified).forM fun f =>
    match w.copyPath? f.path with
    | none => throw (.unresolved f.path.text
        ⟨"instrumented file is outside the working copy", false⟩)
    | some target => Writing.file target f.text

/-- Writes a report beside the copies. -/
def writeReport (w : WorkingCopy) (name text : String) : Writing Unit :=
  Writing.file (w.base / name) text

/-- The directory for reading copies. -/
def debugRoot (w : WorkingCopy) : Path := w.base / "hookweave-debug"

/-- The place of a reading copy: like the file's place in the working copy. -/
def debugPath? (w : WorkingCopy) (f : InstrumentedFile) : Option Path :=
  (w.copyPath? f.path).map fun copy => w.debugRoot.join ((copy.strip? w.base).getD copy).text

/-- Writes copies of the modified files for reading, in the layout that `print` gives a source text.
A file that cannot be read as a source file has none. -/
def writeDebugCopies (w : WorkingCopy) (print : String → String) (files : List InstrumentedFile) :
    Writing Unit :=
  (files.filter InstrumentedFile.isModified).forM fun f =>
    match w.debugPath? f with
    | none => pure ()
    | some target => do
      Writing.dirs ((target.parent?).getD ⟨""⟩)
      match Source.Scan.read f.rendering.text with
      | .error _ => pure ()
      | .ok _ =>
        let (_, code) := Source.withoutMark f.rendering.text
        Writing.file target (print (String.ofList code))

end Instrumentation.WorkingCopy
