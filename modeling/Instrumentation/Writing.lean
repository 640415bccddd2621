import Instrumentation.FileTree.Edit

/-!
Runs that write files. A run may fail, and what it has written before stays written.
-/
namespace Instrumentation

/-- A run that changes a file tree. -/
abbrev Writing := ExceptT Failure (StateM FileTree)

namespace Writing

variable {α β : Type}

/-- What a run gives, and the tree that it leaves. -/
def on (m : Writing α) (t : FileTree) : Except Failure α × FileTree := StateT.run (ExceptT.run m) t

/-- What a run gives, with the tree, unless it fails. -/
def result (m : Writing α) (t : FileTree) : Except Failure (FileTree × α) :=
  match m.on t with
  | (.ok a, t) => .ok (t, a)
  | (.error e, _) => .error e

/-- Fails if something did. -/
def orFail (r : Except Failure α) : Writing α := ExceptT.mk (pure r)

/-- One change of the tree; one that fails leaves the tree as it is. -/
def change (path : Path) (f : FileTree → Except IoFault FileTree) : Writing Unit := do
  match f (← get) with
  | .ok t => set t
  | .error fault => throw (.io .resolver path fault)

/-- Writes a file. -/
def file (path : Path) (text : String) : Writing Unit :=
  change path fun t => t.write path (.text text)

/-- Makes a directory and those on the way to it. -/
def dirs (path : Path) : Writing Unit := change path fun t => t.makeDirs path

end Writing
end Instrumentation
