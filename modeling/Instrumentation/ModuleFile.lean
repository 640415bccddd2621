import Instrumentation.FileTree
import Instrumentation.Matches

/-!
The source files of a crate, found by following its module declarations from the root file, one
level of declarations after the other.
-/
namespace Instrumentation

/-- A source file with the module it holds. -/
structure ModuleFile where
  modulePath : String
  /-- All modules on the way from the root are public. -/
  isExported : Bool
  file : SourceFile

namespace ModuleFile

/-- The module of something in modules inside the file. -/
def importPath (m : ModuleFile) (scope : List String) : String :=
  Text.joined "::" (m.modulePath :: scope)

/-- A file that is still to be read. -/
structure Pending where
  path : Path
  modulePath : String
  /-- The directory that its module declarations are seen from. -/
  dir : Path
  isExported : Bool

/-- Reads and scans a file. -/
def scan (t : FileTree) (path : Path) : Except Failure SourceFile :=
  match t.readText path with
  | .error fault => .error (.io .matcher path fault)
  | .ok text => match Source.Scan.read text.toList with
    | .ok s => .ok ⟨path, s⟩
    | .error e => .error (.parse path e.line e.column ⟨"", true⟩)

/-- The places where the file of a module may be. -/
def candidates (dir : Path) (m : Source.OutlineModule) : List Path :=
  match m.path with
  | some p => [dir / p]
  | none => [dir / (m.name ++ ".rs"), dir / m.name / "mod.rs"]

/-- The directory that declarations in the file of a module are seen from. -/
def childDir (dir found : Path) (m : Source.OutlineModule) : Path :=
  if m.path.isSome || found.fileName? == some "mod.rs" then (found.parent?).getD ⟨""⟩
  else dir / m.name

/-- The file that a declaration in `p` leads to, if there is one. -/
def follow? (t : FileTree) (p : Pending) (m : Source.OutlineModule) : Option Pending := do
  let dir := m.scope.foldl Path.join p.dir
  let found ← (candidates dir m).find? t.isFile
  return {
    path := found
    modulePath := Text.joined "::" (p.modulePath :: m.scope ++ [m.name])
    dir := childDir dir found m
    isExported := p.isExported && m.isPub }

/-- Pending files without those that have been seen before. -/
def unseen (seen : List Path) : List Pending → List Pending × List Path
  | [] => ([], seen)
  | p :: rest =>
    if seen.any p.path.same then unseen seen rest
    else
      let (ps, seen) := unseen (p.path :: seen) rest
      (p :: ps, seen)

/-- The files of one level, and all that are found from them; `levels` bounds the levels. -/
def walkLevels (t : FileTree) : (levels : Nat) → (seen : List Path) → List Pending →
    Except Failure (List ModuleFile)
  | 0, _, _ => .ok []
  | levels + 1, seen, level => do
    if level.isEmpty then return []
    let files ← level.mapM fun p => (scan t p.path).map fun file => (p, file)
    let found := files.flatMap fun (p, file) => file.scan.modules.filterMap (follow? t p)
    let (next, seen) := unseen seen found
    let rest ← walkLevels t levels seen next
    return files.map (fun (p, file) => ⟨p.modulePath, p.isExported, file⟩) ++ rest

/-- There are no more paths than this: a text is a number with a digit for each byte. -/
def pathBound : Nat := Nat.pow 257 FileTree.pathLimit

/-- The files of the crate with that root file, in the order of the walk. Files are told apart by
their paths: each path is followed once, so there are no more levels than paths. -/
def walk (t : FileTree) (crateName : String) (root : Path) : Except Failure (List ModuleFile) :=
  walkLevels t pathBound [root] [⟨root, crateName, (root.parent?).getD ⟨""⟩, true⟩]

end ModuleFile
end Instrumentation
