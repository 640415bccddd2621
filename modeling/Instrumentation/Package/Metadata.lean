import Instrumentation.Json.Decode
import Instrumentation.Package.Graph
import Instrumentation.Version.Requirement

/-!
The package graph as Cargo describes it. Every record is checked in full, also the parts that do
not matter to the graph, so that a description that is not of this form is refused.
-/
namespace Instrumentation

open Json (Fields knownFields? listOf? below?)

namespace Metadata

/-- A part that is only checked. -/
def checked (test : Json → Option α) (j : Json) : Option Unit := (test j).map fun _ => ()

def texts? : Json → Option (List String) := listOf? Json.str?

def version? (j : Json) : Option Version := j.str?.bind Version.ofString?

/-- The editions that Cargo knows, and will know. -/
def editions : List String := ["2015", "2018", "2021", "2024", "2027", "2030"]

def edition? (j : Json) : Option String := j.str?.filter editions.contains

structure Target where
  name : String
  kinds : List String
  srcPath : String

def target? (j : Json) : Option Target := do
  let fs ← knownFields? ["name", "kind", "crate_types", "required-features", "src_path", "edition",
    "doctest", "test", "doc"] j
  let _ ← Fields.defaulted [] texts? fs "crate_types"
  let _ ← Fields.defaulted [] texts? fs "required-features"
  let _ ← Fields.defaulted "2015" edition? fs "edition"
  let _ ← Fields.defaulted true Json.bool? fs "doctest"
  let _ ← Fields.defaulted true Json.bool? fs "test"
  let _ ← Fields.defaulted true Json.bool? fs "doc"
  return ⟨← Fields.required Json.str? fs "name", ← Fields.required texts? fs "kind",
    ← Fields.required Json.str? fs "src_path"⟩

def kind? (j : Json) : Option Unit :=
  match j with
  | .null => some ()
  | j => checked Json.str? j

def requirement? (j : Json) : Option Unit :=
  j.str?.bind fun s => match Requirement.read s.toList with
    | .ok _ => some ()
    | .error _ => none

def dependency? (j : Json) : Option Unit := do
  let fs ← knownFields? ["name", "source", "req", "kind", "optional", "uses_default_features",
    "features", "target", "rename", "registry", "path"] j
  let _ ← Fields.required Json.str? fs "name"
  let _ ← Fields.required requirement? fs "req"
  let _ ← Fields.required kind? fs "kind"
  let _ ← Fields.required Json.bool? fs "optional"
  let _ ← Fields.required Json.bool? fs "uses_default_features"
  let _ ← Fields.required texts? fs "features"
  for name in ["source", "target", "rename", "registry", "path"] do
    let _ ← Fields.optional Json.str? fs name

/-- The oldest compiler that a package allows: two or three numbers. -/
def rustVersion? (j : Json) : Option Version := do
  let s ← j.str?
  if s.toList.any fun c => c == '-' || c == '+' then none
  else Version.ofString? (if s.toList.count '.' = 1 then s ++ ".0" else s)

def features? : Json → Option Unit
  | .obj ms => do
    for m in ms do
      let _ ← texts? m.2
  | _ => none

structure PackageRecord where
  name : String
  version : Version
  id : String
  source : Option String
  targets : List Target
  manifestPath : String
  edition : String

def package? (j : Json) : Option PackageRecord := do
  let optionals := ["description", "license", "license_file", "readme", "repository", "homepage",
    "documentation", "links", "default_run"]
  let fs ← knownFields? (["name", "version", "authors", "id", "source", "dependencies", "targets",
    "features", "manifest_path", "categories", "keywords", "edition", "metadata", "publish",
    "rust_version"] ++ optionals) j
  for name in optionals do
    let _ ← Fields.optional Json.str? fs name
  for name in ["authors", "categories", "keywords"] do
    let _ ← Fields.defaulted [] texts? fs name
  let _ ← Fields.optional texts? fs "publish"
  let _ ← Fields.optional rustVersion? fs "rust_version"
  let _ ← Fields.required (listOf? dependency?) fs "dependencies"
  let _ ← Fields.required features? fs "features"
  return {
    name := ← Fields.required Json.str? fs "name"
    version := ← Fields.required version? fs "version"
    id := ← Fields.required Json.str? fs "id"
    source := ← Fields.optional Json.str? fs "source"
    targets := ← Fields.required (listOf? target?) fs "targets"
    manifestPath := ← Fields.required Json.str? fs "manifest_path"
    edition := ← Fields.defaulted "2015" edition? fs "edition" }

def dependencyKind? (j : Json) : Option Unit := do
  let fs ← knownFields? ["kind", "target"] j
  let _ ← Fields.required kind? fs "kind"
  let _ ← Fields.optional Json.str? fs "target"
  return ()

/-- The package that an edge leads to. -/
def edge? (j : Json) : Option String := do
  let fs ← knownFields? ["name", "pkg", "dep_kinds"] j
  let _ ← Fields.required Json.str? fs "name"
  let _ ← Fields.defaulted [] (listOf? dependencyKind?) fs "dep_kinds"
  Fields.required Json.str? fs "pkg"

/-- A resolved package with the packages it depends on. -/
def node? (j : Json) : Option (String × List String) := do
  let fs ← knownFields? ["id", "deps", "dependencies", "features"] j
  let _ ← Fields.required texts? fs "dependencies"
  let _ ← Fields.defaulted [] texts? fs "features"
  return (← Fields.required Json.str? fs "id",
    ← Fields.defaulted [] (listOf? edge?) fs "deps")

def resolve? (j : Json) : Option (List (String × List String)) := do
  let fs ← knownFields? ["nodes", "root"] j
  let _ ← Fields.optional Json.str? fs "root"
  Fields.required (listOf? node?) fs "nodes"

end Metadata

/-- What Cargo says of a workspace. -/
structure Metadata where
  packages : List Metadata.PackageRecord
  members : List String
  resolve : Option (List (String × List String))
  workspaceRoot : String

namespace Metadata

def decode? (j : Json) : Option Metadata := do
  let fs ← knownFields? ["packages", "workspace_members", "workspace_default_members", "resolve",
    "workspace_root", "target_directory", "metadata", "version"] j
  let _ ← Fields.optional texts? fs "workspace_default_members"
  let _ ← Fields.required Json.str? fs "target_directory"
  let _ ← Fields.required (below? Json.wordBound) fs "version"
  return {
    packages := ← Fields.required (listOf? package?) fs "packages"
    members := ← Fields.required texts? fs "workspace_members"
    resolve := ← Fields.optional resolve? fs "resolve"
    workspaceRoot := ← Fields.required Json.str? fs "workspace_root" }

/-- The kinds of targets that other packages link against. -/
def libraryKinds : List String := ["lib", "rlib", "dylib", "cdylib", "staticlib"]

def PackageRecord.toPackage (p : PackageRecord) (isMember : Bool) : Package :=
  let library := p.targets.find? fun t => t.kinds.any libraryKinds.contains
  { id := p.id
    name := p.name
    crateName := underscored ((library.map Target.name).getD p.name)
    version := p.version
    manifestPath := ⟨p.manifestPath⟩
    libRoot := library.map fun t => ⟨t.srcPath⟩
    binRoots := (p.targets.filter fun t => t.kinds.contains "bin").map fun t => ⟨t.srcPath⟩
    edition := p.edition
    source := .ofText? p.source
    isMember }

/-- The graph of the packages that were resolved. -/
def toGraph (m : Metadata) (rustc : Option Version) : Except Failure PackageGraph :=
  match m.resolve with
  | none =>
    .error (.unresolved m.workspaceRoot ⟨"cargo metadata returned no resolve graph", false⟩)
  | some nodes =>
    let resolved := nodes.map Prod.fst
    match m.members.find? fun id => !resolved.contains id with
    | some id => .error (.unresolved id ⟨"workspace member missing from the resolve graph", false⟩)
    | none =>
      let packages := (m.packages.filter fun p => resolved.contains p.id).map fun p =>
        p.toPackage (m.members.contains p.id)
      let edges := nodes.flatMap fun n => n.2.map fun target => (n.1, target)
      PackageGraph.ofEdges ⟨m.workspaceRoot⟩ packages edges rustc

end Metadata
end Instrumentation
