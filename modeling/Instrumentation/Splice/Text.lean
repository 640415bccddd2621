import Instrumentation.Splice.Calls
import Instrumentation.Text.Quoted

/-!
The text of a splice: what stands before the opening brace of a body and after its closing brace.
-/
namespace Instrumentation

/-- The text around a body. -/
structure Splice where
  before : String
  after : String
  deriving DecidableEq, Repr

namespace Splice

/-- The crate that instrumented code calls. -/
def supportCrate : String := "hookweave_rt"

/-- The path of a name of the support crate. -/
def support (name : String) : String := "::" ++ supportCrate ++ "::" ++ name

def Guard.text : Guard → String
  | .single g => "__hw_t" ++ toString g
  | .fused g => "__hw_f" ++ toString g

def Target.text : Target → String
  | .whole g => g.text
  | .stage g i => g.text ++ ".stage(" ++ toString i ++ ")"

def Link.text : Link → String
  | .thread => support "Link::Thread"
  | .detached => support "Link::Detached"
  | .outer (.single g) => support "Link::Outer(&" ++ (Guard.single g).text ++ ")"
  | .outer (.fused g) => support "Link::Fused(&" ++ (Guard.fused g).text ++ ")"

def ReceiverAccess.text : ReceiverAccess → String
  | .reborrow => "&*self"
  | .borrow => "&self"

/-- The method that captures a value in a mode. -/
def captureMethod : CaptureMode → String
  | .debug => "capture_debug"
  | .display => "capture_display"
  | .clone => "capture_clone"

def Entry.text (e : Entry) : String :=
  let captures := e.captures.map fun c =>
    "__hw_ctx." ++ captureMethod c.mode ++ "(" ++ Text.quoted c.param ++ ", &" ++ c.param ++ "); "
  let receiver := e.receiver.elim "" fun r => "__hw_ctx.capture_receiver(" ++ r.text ++ "); "
  let hook := e.hook.elim "" fun h =>
    h.absolute ++ "(__hw_ctx" ++ e.receiver.elim "" (fun r => ", " ++ r.text) ++ ")"
  "|__hw_ctx| \x7b " ++ Text.joined "" captures ++ receiver ++ hook ++ "\x7d"

/-- The name of the static that describes a stage. -/
def siteName (stage : Nat) : String := "__HW_SITE_" ++ toString stage

/-- The static that describes a stage. -/
def siteText (importPath function : String) (stage : Nat) (s : Stage) : String :=
  "static " ++ siteName stage ++ ": " ++ support "CallSite" ++ " = " ++ support "CallSite"
    ++ " \x7b rule: " ++ Text.quoted s.rule.id ++ ", package: " ++ Text.quoted importPath
    ++ ", function: " ++ Text.quoted function ++ " \x7d; "

/-- A call as a statement, with what depends on the whole declaration: whether guards observe,
and whether the value is a success or a failure. -/
def Call.text (observing returnsResult : Bool) : Call → String
  | .openSingle group stage toggled link =>
    "let mut " ++ (Guard.single group).text ++ " = " ++ support "Trampoline::"
      ++ (if toggled then "toggled" else "new") ++ "(&" ++ siteName stage ++ ", " ++ link.text
      ++ ")" ++ mark ++ "; "
  | .openFused group stages link =>
    let sites := "__HW_SITES_" ++ toString group
    "static " ++ sites ++ ": [&" ++ support "CallSite" ++ "; " ++ toString stages.length
      ++ "] = [" ++ Text.joined ", " (stages.map fun k => "&" ++ siteName k) ++ "]; let mut "
      ++ (Guard.fused group).text ++ " = " ++ support "Fused::new(&" ++ sites ++ ", " ++ link.text
      ++ ")" ++ mark ++ "; "
  | .setExit target hook => target.text ++ ".set_exit(" ++ hook.absolute ++ "); "
  | .enter target entry => target.text ++ ".enter(" ++ entry.text ++ "); "
  | .record target mode =>
    target.text ++ ".record(|__hw_ctx| __hw_ctx." ++ captureMethod mode
      ++ "(\"return\", &__hw_ret)); "
  | .complete guard =>
    guard.text ++ (if returnsResult then ".complete_result" else ".complete") ++ "(&__hw_ret); "
where
  mark : String := if observing then ".observing()" else ""

/-- What stands right before an observed body. -/
def bodyOpening (d : Source.Declaration) : String :=
  if d.isAsync then "let __hw_ret = async move "
  else "#[allow(clippy::redundant_closure_call)] let __hw_ret = (move || "
    ++ (if d.annotatable then d.returnType.elim "" fun t => "-> " ++ t ++ " " else "")

/-- What stands right after an observed body. -/
def bodyClosing (d : Source.Declaration) : String := if d.isAsync then ".await; " else ")(); "

/-- The splice of a declaration in the module `importPath`. -/
def generate (importPath : String) (d : Source.Declaration) (stages : List Stage)
    (groups : List Group) : Splice :=
  let observing := Stage.bodyForm d stages == .observing
  let call := Call.text observing d.returnsResult
  let sites := stages.zipIdx.map fun (s, k) => siteText importPath d.qualifiedName k s
  let before := "\x7b " ++ Text.joined "" sites ++
    Text.joined "" ((opening d stages groups).map call)
  if observing then
    { before := before ++ bodyOpening d
      after := bodyClosing d ++ Text.joined "" ((closing stages groups).map call)
        ++ "__hw_ret \x7d" }
  else
    { before, after := " \x7d" }

/-- The line that makes crates known to a crate root of an edition that needs it. -/
def externCrateLine (crates : List String) : String :=
  Text.joined " " (crates.map fun c => "extern crate " ++ c ++ ";")

end Splice
end Instrumentation
