import Instrumentation.Json.Basic
import Instrumentation.Package.Graph

/-!
Packages and their graph as JSON.
-/
namespace Instrumentation

open Json (nat list strs opt)

def PackageSource.toJson : PackageSource → Json
  | path => .str "Path"
  | registry id => .obj [("Registry", .str id)]
  | git id => .obj [("Git", .str id)]

def Path.toJson (p : Path) : Json := .str p.text

def Package.toJson (p : Package) : Json :=
  .obj [("id", .str p.id), ("name", .str p.name), ("crate_name", .str p.crateName),
    ("version", .str p.version.text), ("manifest_path", p.manifestPath.toJson),
    ("lib_root", opt Path.toJson p.libRoot), ("bin_roots", list Path.toJson p.binRoots),
    ("edition", .str p.edition), ("source", p.source.toJson), ("is_member", .bool p.isMember)]

def PackageGraph.fields (g : PackageGraph) : List (String × Json) :=
  [("workspace_root", g.workspaceRoot.toJson), ("packages", list Package.toJson g.packages),
    ("deps", list (list nat) g.deps), ("rustc", opt (fun v => .str v.text) g.rustc)]

end Instrumentation
