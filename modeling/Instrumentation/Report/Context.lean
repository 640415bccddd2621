import Instrumentation.Invocation.Guard
import Instrumentation.Json.Basic

/-!
Call contexts and outcomes as JSON.
-/
namespace Instrumentation.Invocation

open Json (nat list strs opt)

def Value.toJson : Value → Json
  | unit => .null
  | bool b => .bool b
  | int n => .int n
  | text s => .str s
  | ints ns => list .int ns
  | absent => .null

def CallContext.toJson (c : CallContext) : Json :=
  .obj [("rule", .str c.site.rule), ("package", .str c.site.package),
    ("function", .str c.site.function), ("id", nat c.id), ("parent", opt nat c.parent),
    ("receiver", opt .str c.receiver),
    ("params", list (fun (p : String × Captured) =>
      .arr [.str p.1, opt .str p.2.text?, .str p.2.debugText]) c.params),
    ("return", opt .str (c.returnValue.bind Captured.text?)),
    ("i64", opt Value.toJson (c.attachment? .int)),
    ("string", opt Value.toJson (c.attachment? .text)),
    ("bool", opt Value.toJson (c.attachment? .bool)),
    ("has_unit", .bool (c.attachment? .unit).isSome)]

def Outcome.toJson (o : Outcome) : Json :=
  .obj [("outcome", .str o.debugText), ("failure", .bool o.isFailure)]

end Instrumentation.Invocation
