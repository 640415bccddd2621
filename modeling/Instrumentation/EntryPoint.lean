import Instrumentation.Source.Scan

/-!
Entry points: the functions of a file that can run though nothing in the program calls them by
name.
-/
namespace Instrumentation

/-- Why a function can run. -/
inductive EntryKind where
  | main
  | asyncMain
  | test
  /-- A public function of a library that code outside the program's sources may use. -/
  | exported
  | alwaysLive
  deriving DecidableEq, Repr

/-- What a file is to its package. -/
inductive FileRole where
  | binaryRoot
  /-- A file of a library whose public functions may be called from elsewhere. -/
  | exposedLibrary
  | internal
  deriving DecidableEq, Repr

namespace FileRole

/-- Whether, and why, a function is an entry point. -/
def entryKind? (role : FileRole) (f : Source.FunctionSummary) : Option EntryKind :=
  if f.isTest then some .test
  else if f.alwaysLive then some .alwaysLive
  else match role with
    | .binaryRoot =>
      if f.name == "main" && f.scope.isEmpty && f.receiver.isNone then
        some (if f.isAsync then .asyncMain else .main)
      else none
    | .exposedLibrary => if f.isPub then some .exported else none
    | .internal => none

/-- The entry points of a file, each with the number of its function. -/
def entryPoints (role : FileRole) (s : Source.Scan) :
    List (Nat × Source.FunctionSummary × EntryKind) :=
  s.functions.zipIdx.filterMap fun (f, i) => (role.entryKind? f).map fun k => (i, f, k)

end FileRole

def EntryKind.name : EntryKind → String
  | main => "Main"
  | asyncMain => "AsyncMain"
  | test => "Test"
  | exported => "ExportedFunction"
  | alwaysLive => "AlwaysLive"

/-- The name of a function with its receiver before it. -/
def Source.FunctionSummary.qualifiedName (f : Source.FunctionSummary) : String :=
  match f.receiver with
  | some r => r ++ "::" ++ f.name
  | none => f.name

end Instrumentation
