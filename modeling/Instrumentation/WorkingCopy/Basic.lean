import Instrumentation.Manifest
import Instrumentation.Package.Graph
import Instrumentation.Rule.Basic
import Instrumentation.Splice.Text
import Instrumentation.WorkingCopy.Relocation
import Instrumentation.Writing

/-!
The working copy of a program: a copy of the workspace, and beside it a copy of every package that
is changed or that the program reaches by a path of its own. The manifests in it name the copies.
Nothing outside the working copy is written.
-/
namespace Instrumentation

structure WorkingCopy where
  /-- The directory that holds all copies. -/
  base : Path
  relocations : List Relocation := []
  /-- The packages of registries and repositories that their copies replace. -/
  patched : List String := []

namespace WorkingCopy

/-- What a working copy has to hold besides the program. -/
structure Plan where
  /-- The numbers of the packages that are instrumented. -/
  instrumented : List Nat := []
  hookCrates : List HookCrate := []
  /-- The directory of the support package, for programs that do not depend on one. -/
  runtimeDir : Path

/-- Directories that are not copied: build output, and what belongs to version control. -/
def skippedDirs : List String := ["target", ".git", "hookweave-debug"]

/-- The name of the support package. -/
def supportPackage : String := "hookweave-rt"

/-- The copy of the workspace. -/
def root (w : WorkingCopy) : Path := w.base / "ws"

def manifestPath (w : WorkingCopy) : Path := w.root / Manifest.fileName

/-- Where a path lies in the copy, if it was copied. -/
def copyPath? (w : WorkingCopy) (p : Path) : Option Path := Relocation.move? w.relocations p

/-- Where a path in the copy was copied from. -/
def sourcePath? (w : WorkingCopy) (p : Path) : Option Path :=
  Relocation.move? (w.relocations.map Relocation.reversed) p

/-- The copy of a path, or the path itself if it was not copied. -/
def locate (w : WorkingCopy) (p : Path) : Path := (w.copyPath? p).getD p

/-- A manifest in the copy, and where it was copied from. -/
structure ManifestCopy where
  copy : Path
  source : Path

/-- A working copy that is being made. -/
structure Draft where
  copy : WorkingCopy
  manifests : List ManifestCopy := []
  patches : Manifest.Patches := []

/-- Copies a directory, and tells the places of the files below it. -/
def copyDir (source target : Path) : Writing (List Place) := do
  Writing.dirs target
  let t ← get
  let dir ← Writing.orFail ((t.place source).mapError (.io .resolver source))
  if !t.hasDir dir then throw (.io .resolver source .notDirectory)
  let copy ← Writing.orFail ((t.place target).mapError (.io .resolver target))
  set (t.copyBelow skippedDirs dir copy)
  return (t.filesBelow skippedDirs dir).map Prod.fst

/-- The copy of the workspace with its manifests. -/
def Draft.ofWorkspace (base : Path) (g : PackageGraph) : Writing Draft := do
  let empty : WorkingCopy := { base }
  let files ← copyDir g.workspaceRoot empty.root
  let manifests := files.filter fun f => f.getLast? == some Manifest.fileName
  return {
    copy := { empty with relocations := [⟨g.workspaceRoot, empty.root⟩] }
    manifests := manifests.map fun f =>
      let rest := Text.joined "/" f
      ⟨empty.root.join rest, g.workspaceRoot.join rest⟩ }

/-- Packages outside the workspace are copied if the program names them by a path, or if they are
instrumented. -/
def isCopied (g : PackageGraph) (plan : Plan) (i : Nat) (p : Package) : Bool :=
  !p.rootDir.startsWith g.workspaceRoot && (p.source == .path || plan.instrumented.contains i)

/-- The names that the directory of a package may be given. -/
def copyNames (p : Package) (count : Nat) : List String :=
  let name := p.name ++ "-" ++ p.version.text
  name :: (List.range count).map fun n => name ++ "-" ++ toString (n + 1)

/-- The directories that a package may be copied to, the first free one being taken. -/
def candidates (base : Path) (p : Package) (count : Nat) : List Path :=
  (copyNames p count).map fun name => base / "deps" / name

/-- Copies a package beside the workspace. There are more candidates than places in the tree, so that
one of them is free (`exists_free`). -/
def Draft.addPackage (d : Draft) (p : Package) : Writing Draft := do
  let t ← get
  let places := candidates d.copy.base p t.places.length
  let some copy := places.find? fun place => !t.exists? place
    | throw (.io .resolver (d.copy.base / "deps") .occupied)
  let _ ← copyDir p.rootDir copy
  let key := p.source.patchKey?
  return {
    copy := { d.copy with
      relocations := d.copy.relocations ++ [⟨p.rootDir, copy⟩]
      patched := d.copy.patched ++ key.elim [] fun _ => [p.label] }
    manifests := d.manifests ++ [⟨copy / Manifest.fileName, p.manifestPath⟩]
    patches := key.elim d.patches fun key => d.patches.add key p.name copy }

/-- The dependencies that instrumented packages get: the support package and the hook crates. Of
packages that were copied, the copies are named. -/
def extraDependencies (t : FileTree) (g : PackageGraph) (plan : Plan) (w : WorkingCopy) :
    Except Failure Table := do
  if plan.instrumented.isEmpty then return []
  let runtime ← match (g.byName supportPackage).head?.bind fun i => g.packages[i]? with
    | some p => pure p.rootDir
    | none => (t.canonical plan.runtimeDir).mapError (.io .resolver plan.runtimeDir)
  let support ← Manifest.dependency t (w.locate runtime) Splice.supportCrate supportPackage
  plan.hookCrates.foldlM (fun extra h => do
    let name ← Manifest.packageName t h.dir
    let (crate, entry) ← Manifest.dependency t (w.locate h.dir) h.name name
    return extra.set crate entry) [support]

/-- The manifests of the instrumented packages, in the copy. -/
def instrumentedManifests (g : PackageGraph) (plan : Plan) (w : WorkingCopy) : List Path :=
  plan.instrumented.filterMap fun i => (g.packages[i]?).bind fun p => w.copyPath? p.manifestPath

/-- A manifest of the copy: paths lead to copies, instrumented packages depend on what their
instrumentation names, and the workspace replaces packages by their copies. -/
def wired (w : WorkingCopy) (instrumented : List Path) (extra : Table) (patches : Manifest.Patches)
    (m : ManifestCopy) (table : Table) : Table :=
  let table := Manifest.redirect w.locate ((m.source.parent?).getD ⟨""⟩) table
  let table := if instrumented.any m.copy.same then Manifest.addDependencies table extra else table
  if m.copy.same w.manifestPath then Manifest.addPatches table patches else table

/-- Wires one manifest. -/
def wire (w : WorkingCopy) (instrumented : List Path) (extra : Table) (patches : Manifest.Patches)
    (m : ManifestCopy) : Writing Unit := do
  let table ← Writing.orFail (Manifest.read (← get) m.copy)
  Writing.file m.copy (Toml.document (wired w instrumented extra patches m table))

/-- Makes the working copy of a program in the directory `base`. -/
def copyProgram (base : Path) (g : PackageGraph) (plan : Plan) : Writing WorkingCopy := do
  let packages := (g.packages.zipIdx.filter fun (p, i) => isCopied g plan i p).map Prod.fst
  let d ← packages.foldlM Draft.addPackage (← Draft.ofWorkspace base g)
  let extra ← Writing.orFail (extraDependencies (← get) g plan d.copy)
  d.manifests.forM (wire d.copy (instrumentedManifests g plan d.copy) extra d.patches)
  return d.copy

/-- The working copy of a program in an empty directory, and the tree with it. -/
def materialize (t : FileTree) (base : Path) (g : PackageGraph) (plan : Plan) :
    Except Failure (FileTree × WorkingCopy) := (copyProgram base g plan).result t

end WorkingCopy
end Instrumentation
