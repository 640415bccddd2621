import Instrumentation.Json.Basic
import Instrumentation.Rule.Basic

/-!
Rules as JSON.
-/
namespace Instrumentation

def ReceiverSelector.toJson : ReceiverSelector → Json
  | none => .str "None"
  | any => .str "Any"
  | exact t => .obj [("Exact", .str t)]

def Shape.toJson : Shape → Json
  | any => .str "Any"
  | exact ts => .obj [("Exact", .strs ts)]

def CaptureMode.name : CaptureMode → String
  | debug => "debug"
  | display => "display"
  | clone => "clone"

def Capture.toJson (c : Capture) : Json :=
  .obj [("param", .str c.param), ("mode", .str c.mode.name), ("ty", .opt .str c.type)]

def HookRef.toJson (h : HookRef) : Json :=
  .obj [("hook_crate", .str h.hookCrate), ("path", .str h.path)]

def HookCrate.toJson (h : HookCrate) : Json :=
  .obj [("name", .str h.name), ("dir", .str h.dir.text)]

def RequiredPackage.toJson (r : RequiredPackage) : Json :=
  .obj [("package", .str r.package), ("range", .str r.range.text)]

/-- All that a rule holds. -/
def Rule.members (r : Rule) : List (String × Json) :=
  [("id", .str r.id), ("order", .nat r.order), ("source", .str r.source),
   ("import_path", .str r.importPath), ("receiver", r.receiver.toJson),
   ("function", .str r.function), ("params", r.params.toJson), ("results", r.results.toJson),
   ("on_enter", .opt HookRef.toJson r.onEnter), ("on_exit", .opt HookRef.toJson r.onExit),
   ("version", .str r.version.text), ("rustc", .opt (fun v => .str v.text) r.rustc),
   ("requires", .list RequiredPackage.toJson r.requires), ("fusible", .bool r.fusible),
   ("captures", .list Capture.toJson r.captures), ("hook_crate", r.hookCrate.toJson)]

/-- What a rule holds and what follows from it. -/
def Rule.toJson (r : Rule) : Json :=
  .obj (r.members ++
    [("target_crate", .str r.targetCrate), ("selector", .str r.selector),
     ("captures_return", .bool r.capturesReturn),
     ("param_captures", .list (fun c => .str c.param) r.paramCaptures),
     ("enter_path", .opt (fun h => .str h.absolute) r.onEnter),
     ("exit_path", .opt (fun h => .str h.absolute) r.onExit)])

end Instrumentation
