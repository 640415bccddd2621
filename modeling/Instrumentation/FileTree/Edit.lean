import Instrumentation.FileTree
import Instrumentation.Text.SortedSet

/-!
Changes to a file tree: writing a file, making directories, copying what a directory holds, and
removing it.
-/
namespace Instrumentation.FileTree

/-- Sets what the file at a place holds. -/
def put (t : FileTree) (p : Place) (c : Content) : FileTree :=
  if t.hasFile p then
    { t with files := t.files.map fun f => if f.1 == p then (p, c) else f }
  else { t with files := t.files ++ [(p, c)] }

/-- The place that a path names; the directory that holds it has to exist. -/
def target (t : FileTree) (p : Path) : Except IoFault Place := do
  let some name := (pieces p).getLast? | throw .notFound
  if p.text.isEmpty then throw .notFound
  if p.text.utf8ByteSize ≥ pathLimit then throw .nameTooLong
  let dir ← (pieces p).dropLast.foldlM t.step (t.start p)
  if !t.hasDir dir then throw .notDirectory
  if ["", ".", ".."].contains name then throw .isDirectory
  if name.utf8ByteSize > nameLimit then throw .nameTooLong
  return dir ++ [name]

/-- Writes a file, over the one that is there if any. -/
def write (t : FileTree) (p : Path) (c : Content) : Except IoFault FileTree := do
  let place ← t.target p
  if t.hasDir place then throw .isDirectory
  return t.put place c

/-- One step on the way to a directory, which is made if it is missing. -/
def makeStep (s : FileTree × Place) (piece : String) : Except IoFault (FileTree × Place) :=
  match s.1.step s.2 piece with
  | .ok p => .ok (s.1, p)
  | .error .notFound => .ok ({ s.1 with dirs := s.1.dirs ++ [s.2 ++ [piece]] }, s.2 ++ [piece])
  | .error fault => .error fault

/-- Makes a directory and those on the way to it. -/
def makeDirs (t : FileTree) (p : Path) : Except IoFault FileTree := do
  let (t, place) ← (pieces p).foldlM makeStep (t, t.start p)
  if t.hasDir place then return t else throw .occupied

/-- The rest of a place below a directory. -/
def below? (dir p : Place) : Option Place :=
  if dir.isPrefixOf p && dir != p then some (p.drop dir.length) else none

/-- All places that are listed. -/
def places (t : FileTree) : List Place := t.dirs ++ t.files.map Prod.fst

/-- The names of what a directory holds. -/
def entries (t : FileTree) (dir : Place) : List String :=
  Text.sortedSet (t.places.filterMap fun p => (below? dir p).bind List.head?)

/-- What is below a directory, down to some levels, but not in directories of a skipped name: files
with what they hold, and directories. -/
def walk (t : FileTree) (skipped : List String) : (levels : Nat) → Place →
    List (Place × Option Content)
  | 0, _ => []
  | levels + 1, dir => (t.entries dir).flatMap fun name =>
    let entry := dir ++ [name]
    ((t.fileAt? entry).map fun c => ([name], some c)).toList ++
      if t.hasDir entry && !skipped.contains name then
        ([name], none) :: (walk t skipped levels entry).map fun e => (name :: e.1, e.2)
      else []

/-- How many levels of places there are. -/
def levels (t : FileTree) : Nat := (t.places.map List.length).foldr max 0

/-- The files below a directory, but those in directories of a skipped name. -/
def filesBelow (t : FileTree) (skipped : List String) (dir : Place) : List (Place × Content) :=
  (t.walk skipped t.levels dir).filterMap fun e => e.2.map fun c => (e.1, c)

/-- The directories below a directory, but those of a skipped name and what is in them. -/
def dirsBelow (t : FileTree) (skipped : List String) (dir : Place) : List Place :=
  ((t.walk skipped t.levels dir).filter fun e => e.2.isNone).map Prod.fst

/-- The tree with a copy of what one directory holds in another. -/
def copyBelow (t : FileTree) (skipped : List String) (dir target : Place) : FileTree :=
  (t.filesBelow skipped dir).foldl (fun t f => t.put (target ++ f.1) f.2)
    { t with dirs := t.dirs ++ (t.dirsBelow skipped dir).map (target ++ ·) }

/-- The tree without a directory and all that it holds. -/
def withoutDir (t : FileTree) (p : Path) : FileTree :=
  match t.place p with
  | .ok dir => { t with
      files := t.files.filter fun f => !dir.isPrefixOf f.1
      dirs := t.dirs.filter fun d => !dir.isPrefixOf d }
  | .error _ => t

end Instrumentation.FileTree
