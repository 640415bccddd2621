import Instrumentation.Text.Pieces
import Instrumentation.Text.Quoted

/-!
Values that hooks capture and attach.
-/
namespace Instrumentation.Invocation

inductive Value where
  | unit
  | bool (value : Bool)
  | int (value : Int)
  | text (value : String)
  | ints (values : List Int)
  /-- An optional number that is not there. -/
  | absent
  deriving DecidableEq, Repr

/-- The types of values. -/
inductive Kind where
  | unit | bool | int | text | ints | optional
  deriving DecidableEq, Repr

namespace Value

def kind : Value → Kind
  | unit => .unit
  | bool _ => .bool
  | int _ => .int
  | text _ => .text
  | ints _ => .ints
  | absent => .optional

/-- The value as a programmer would write it. -/
def debugText : Value → String
  | unit => "()"
  | bool b => if b then "true" else "false"
  | int n => toString n
  | text s => Text.quoted s
  | ints ns => "[" ++ Text.joined ", " (ns.map toString) ++ "]"
  | absent => "None"

/-- The value for a reader: a text stands for itself. -/
def displayText : Value → String
  | text s => s
  | v => v.debugText

end Value
end Instrumentation.Invocation
