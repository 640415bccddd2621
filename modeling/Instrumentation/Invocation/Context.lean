import Instrumentation.Invocation.Value
import Instrumentation.Rule.Basic

/-!
Call contexts: what the hooks of one rule know of one call.
-/
namespace Instrumentation.Invocation

/-- The place that a stage was applied to. -/
structure CallSite where
  rule : String
  package : String
  function : String
  deriving DecidableEq, Repr

inductive Captured where
  | text (text : String)
  | value (value : Value)
  deriving DecidableEq, Repr

structure CallContext where
  site : CallSite
  id : Nat
  /-- The instrumented call that encloses this one. -/
  parent : Option Nat
  /-- The name of the receiver's type. -/
  receiver : Option String := none
  params : List (String × Captured) := []
  returnValue : Option Captured := none
  attachments : List Value := []
  deriving DecidableEq, Repr

namespace Captured

def text? : Captured → Option String
  | text s => some s
  | value _ => none

def value? : Captured → Option Value
  | text _ => none
  | value v => some v

def debugText : Captured → String
  | text s => "Text(" ++ Text.quoted s ++ ")"
  | value _ => "Value(..)"

/-- A value as a mode captures it. -/
def of (mode : CaptureMode) (v : Value) : Captured :=
  match mode with
  | .debug => text v.debugText
  | .display => text v.displayText
  | .clone => value v

end Captured

namespace CallContext

/-- A capture under the name `return` is the value that is returned. -/
def store (c : CallContext) (name : String) (captured : Captured) : CallContext :=
  if name == "return" then { c with returnValue := some captured }
  else { c with params := c.params ++ [(name, captured)] }

def capture (c : CallContext) (mode : CaptureMode) (name : String) (v : Value) : CallContext :=
  c.store name (.of mode v)

/-- The first capture of a parameter. -/
def captured? (c : CallContext) (name : String) : Option Captured :=
  (c.params.find? fun p => p.1 == name).map Prod.snd

/-- The text that was captured of a parameter. -/
def param? (c : CallContext) (name : String) : Option String :=
  (c.captured? name).bind Captured.text?

/-- The value of a parameter, if a value of that type was kept. -/
def paramValue? (c : CallContext) (name : String) (kind : Kind) : Option Value :=
  ((c.captured? name).bind Captured.value?).filter (·.kind == kind)

/-- What a hook returns is kept, unless it is nothing. -/
def attach (c : CallContext) (v : Value) : CallContext :=
  if v.kind == .unit then c else { c with attachments := c.attachments ++ [v] }

/-- The first attachment of a type. -/
def attachment? (c : CallContext) (kind : Kind) : Option Value :=
  c.attachments.find? (·.kind == kind)

/-- The first attachment of a type, taken away. -/
def takeAttachment (c : CallContext) (kind : Kind) : Option Value × CallContext :=
  (c.attachment? kind, { c with attachments := c.attachments.eraseP (·.kind == kind) })

end CallContext
end Instrumentation.Invocation
