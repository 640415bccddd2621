import Instrumentation.CommandLine.Run

/-!
The command line. Standard input holds the world of the run, since no program is called from here;
files that the run writes are written.
-/
namespace Instrumentation.CommandLine

/-- The bytes of a file. -/
def bytesOf : Content → ByteArray
  | .text s => s.toUTF8
  | .bytes bs => ⟨bs.toArray⟩

/-- Writes the files that a run has changed. -/
def writeChanges (old new : FileTree) : IO Unit :=
  for (place, content) in new.files do
    if old.fileAt? place != some content then
      IO.FS.createDirAll (FileTree.pathOf place.dropLast).text
      IO.FS.writeBinFile (FileTree.pathOf place).text (bytesOf content)

/-- Runs a command in the world on standard input. -/
def perform (args : List String) : IO UInt32 := do
  let input ← (← IO.getStdin).readToEnd
  match (Json.read? input).bind World.decode? with
  | none =>
    IO.eprintln "the world on standard input cannot be read"
    return 2
  | some w =>
    let out := run w args
    writeChanges w.tree out.tree
    IO.print out.stdout
    IO.eprint out.stderr
    return out.code.toUInt32

end Instrumentation.CommandLine

def main (args : List String) : IO UInt32 := Instrumentation.CommandLine.perform args
