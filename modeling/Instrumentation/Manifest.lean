import Instrumentation.FileTree
import Instrumentation.Sorting
import Instrumentation.Toml.Printer
import Instrumentation.Toml.Reader

/-!
Package manifests as tables: where they name other packages by path, and how dependencies and
replacements are added to them.
-/
namespace Instrumentation

/-- A table of a manifest. -/
abbrev Table := List (String × Json)

namespace Table

/-- The members of a value that is a table. -/
def ofJson? (j : Json) : Option Table :=
  if (Toml.date? j).isSome then none else j.obj?

def get? (t : Table) (name : String) : Option Json :=
  (t.find? fun m => m.1 == name).map Prod.snd

def has (t : Table) (name : String) : Bool := t.any fun m => m.1 == name

/-- Replaces a member, or puts it at the end. -/
def set (t : Table) (name : String) (value : Json) : Table :=
  if t.has name then t.map fun m => if m.1 == name then (name, value) else m
  else t ++ [(name, value)]

/-- Sets every member of a second table. -/
def setAll (t more : Table) : Table := more.foldl (fun t m => t.set m.1 m.2) t

/-- Changes every member. -/
def mapValues (f : Json → Json) (t : Table) : Table := t.map fun m => (m.1, f m.2)

/-- Changes the members of some names. -/
def mapAt (names : List String) (f : Json → Json) (t : Table) : Table :=
  t.map fun m => if names.contains m.1 then (m.1, f m.2) else m

/-- Changes the table of a name, which is empty if it is missing; nothing is changed if the name
stands for something else. -/
def mapTable (t : Table) (name : String) (f : Table → Table) : Table :=
  match t.get? name with
  | none => t.set name (.obj (f []))
  | some j => match ofJson? j with
    | some inner => t.set name (.obj (f inner))
    | none => t

end Table

namespace Manifest

/-- The name of a manifest file. -/
def fileName : String := "Cargo.toml"

/-- The tables of dependencies. -/
def dependencyTables : List String := ["dependencies", "dev-dependencies", "build-dependencies"]

/-- Changes the members of a value that is a table. -/
def inTable (f : Table → Table) (j : Json) : Json :=
  match Table.ofJson? j with
  | some t => .obj (f t)
  | none => j

/-- A path seen from the directory of a manifest, and then sent elsewhere. -/
def sent (move : Path → Path) (dir : Path) : Json → Json
  | .str path => .str (move (dir.join path).normalize).text
  | j => j

/-- The dependencies of a table with their paths sent elsewhere. -/
def redirectEntries (move : Path → Path) (dir : Path) : Json → Json :=
  inTable (Table.mapValues (inTable (Table.mapAt ["path"] (sent move dir))))

/-- A manifest with all paths to other packages sent elsewhere: those of dependencies, also for
single targets and of the whole workspace, and those of replacements. -/
def redirect (move : Path → Path) (dir : Path) (manifest : Table) : Table :=
  let entries := redirectEntries move dir
  let ofTarget := inTable (Table.mapAt dependencyTables entries)
  manifest.map fun m =>
    if dependencyTables.contains m.1 then (m.1, entries m.2)
    else if m.1 = "target" then (m.1, inTable (Table.mapValues ofTarget) m.2)
    else if m.1 = "workspace" then (m.1, inTable (Table.mapAt ["dependencies"] entries) m.2)
    else if m.1 = "patch" then (m.1, inTable (Table.mapValues entries) m.2)
    else m

/-- A name with dashes for its underscores. -/
def dashed (s : String) : String :=
  String.ofList (s.toList.map fun c => if c = '_' then '-' else c)

/-- One more dependency, unless the crate is named already. -/
def addDependency (deps : Table) (entry : String × Json) : Table :=
  if deps.has entry.1 || deps.has (dashed entry.1) then deps else deps.set entry.1 entry.2

/-- More dependencies, in the order of their names. -/
def addDependencies (manifest extra : Table) : Table :=
  let extra := sortedBy (fun a b => a.1 ≤ b.1) extra
  manifest.mapTable "dependencies" fun deps => extra.foldl addDependency deps

/-- The replacements of packages, by the sources they replace. -/
abbrev Patches := List (String × Table)

/-- One more replacement of a package by a copy. A second package of one name gets a key of its
own, which tells its name. -/
def Patches.add (patches : Patches) (source name : String) (copy : Path) : Patches :=
  let entries := ((patches.find? fun p => p.1 == source).map Prod.snd).getD []
  let path := ("path", Json.str copy.text)
  let entries := if entries.has name then
      entries.set (name ++ "-hw" ++ toString entries.length) (.obj [path, ("package", .str name)])
    else entries.set name (.obj [path])
  patches.filter (fun p => p.1 != source) ++ [(source, entries)]

def addPatches (manifest : Table) (patches : Patches) : Table :=
  if patches.isEmpty then manifest
  else manifest.mapTable "patch" fun patch =>
    patches.foldl (fun patch p => patch.mapTable p.1 fun slot => slot.setAll p.2) patch

/-- The table in a manifest file. -/
def read (t : FileTree) (p : Path) : Except Failure Table :=
  match t.readText p with
  | .error fault => .error (.io .resolver p fault)
  | .ok text => match (Toml.read? text).bind Json.obj? with
    | some table => .ok table
    | none => .error (.unresolved p.text ⟨"invalid manifest: ", true⟩)

/-- The name of the package in a directory. -/
def packageName (t : FileTree) (dir : Path) : Except Failure String := do
  let path := dir / fileName
  let manifest ← read t path
  match ((manifest.get? "package").bind (Json.member? "name")).bind Json.str? with
  | some name => return name
  | none => throw (.unresolved path.text ⟨"manifest has no package name", false⟩)

/-- A dependency on the package in a directory, by the name of its crate. -/
def dependency (t : FileTree) (dir : Path) (crate package : String) :
    Except Failure (String × Json) := do
  let dir ← (t.canonical dir).mapError (.io .resolver dir)
  let path := ("path", Json.str dir.text)
  return (crate, .obj (if crate = package then [path] else [path, ("package", .str package)]))

end Manifest
end Instrumentation
