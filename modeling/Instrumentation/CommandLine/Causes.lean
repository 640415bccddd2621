import Instrumentation.Failure

/-!
Why a command failed: what was tried, and the chain of causes behind it. Causes are indented, and
numbered if there are several.
-/
namespace Instrumentation.CommandLine

structure CommandFailure where
  /-- What was tried. -/
  context : String
  /-- The causes, nearest first. -/
  causes : List String := []
  /-- A cause goes on with what the reader of some format says of its input. -/
  quotesReader : Bool := false
  deriving DecidableEq, Repr

namespace CommandFailure

/-- The failure of something that was tried for the sake of something else. -/
def inContext (context : String) (f : CommandFailure) : CommandFailure :=
  { f with context, causes := f.context :: f.causes }

def ofFault (context : String) (fault : IoFault) : CommandFailure :=
  ⟨context, [fault.message], false⟩

/-- A failed run; for reading and writing files, what went wrong with the file is a cause. -/
def ofFailure (context : String) (f : Failure) : CommandFailure :=
  let causes := match f with
    | .io _ _ fault => [f.text, fault.message]
    | f => [f.text]
  ⟨context, causes, f.quotesReader⟩

/-- A text with a lead before its first line and as much blank space before the others. -/
def indented (lead : String) (s : String) : String :=
  let blank := String.ofList (List.replicate lead.length ' ')
  lead ++ Text.joined ("\n" ++ blank) ((Text.pieces '\n' s.toList).map String.ofList)

/-- A text at the right end of a number of columns. -/
def atRight (width : Nat) (s : String) : String :=
  String.ofList (List.replicate (width - s.length) ' ') ++ s

def causeTexts : List String → List String
  | [] => []
  | [cause] => [indented "    " cause]
  | causes => causes.zipIdx.map fun (cause, i) => indented (atRight 5 (toString i) ++ ": ") cause

def text (f : CommandFailure) : String :=
  "Error: " ++ f.context ++
    (if f.causes.isEmpty then "" else "\n\nCaused by:\n" ++ Text.joined "\n" (causeTexts f.causes))
    ++ "\n"

end CommandFailure
end Instrumentation.CommandLine
